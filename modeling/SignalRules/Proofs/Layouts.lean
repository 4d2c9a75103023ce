import SignalRules.Proofs.Grammar

/-! # Layouts

A layout is a derivation of an item as a tree: every character of the text has its place in it, and
the item is what is left when the separators are forgotten. A text has one layout at most, which is
how the reader can go without trying anything twice.
-/

namespace SignalRules

namespace Sexp

mutual

/-- How an item is laid out in a text. -/
inductive Layout where
  | symbol (first : Char) (more : List Char)
  | number (negative : Bool) (whole : List Char) (places : Option (List Char))
  | string (cs : List Char)
  | list (items : Layouts) (gap : List Char)

/-- The items of a list, each behind its separators. -/
inductive Layouts where
  | nil
  | cons (gap : List Char) (item : Layout) (more : Layouts)

end

/-- The point of a number and its places, if it has any. -/
def pointed : Option (List Char) → List Char
  | none => []
  | some places => '.' :: places

mutual

def Layout.chars : Layout → List Char
  | .symbol first more => first :: more
  | .number negative whole places =>
    (if negative then ['-'] else []) ++ (whole ++ pointed places)
  | .string cs => '\'' :: cs ++ ['\'']
  | .list items gap => '(' :: items.chars ++ gap ++ [')']

def Layouts.chars : Layouts → List Char
  | .nil => []
  | .cons gap item more => gap ++ item.chars ++ more.chars

end

mutual

def Layout.item : Layout → Sexp
  | .symbol first more => .symbol (String.ofList (first :: more))
  | layout@(.number ..) => .number (String.ofList layout.chars)
  | .string cs => .string (String.ofList cs)
  | .list items _ => .list items.items

def Layouts.items : Layouts → List Sexp
  | .nil => []
  | .cons _ item more => item.item :: more.items

end

mutual

/-- Every character is of the kind that its place takes, and every item of a list is followed by a
separator or by the end of the list. -/
def Layout.Fits : Layout → Prop
  | .symbol first more => first.isAlpha = true ∧ ∀ c ∈ more, isSymbolChar c = true
  | .number _ whole places => Digits whole ∧ ∀ ds ∈ places, Digits ds
  | .string cs => '\'' ∉ cs
  | .list items gap => items.Fits ∧ Separators gap

def Layouts.Fits : Layouts → Prop
  | .nil => True
  | .cons gap item more =>
    Separators gap ∧ item.Fits ∧ isBoundary more.chars = true ∧ more.Fits

end

/-- A text taken apart: an item between separators. -/
structure Derivation (text : String) where
  before : List Char
  layout : Layout
  after : List Char
  whole : text.toList = before ++ (layout.chars ++ after)
  separatorsBefore : Separators before
  separatorsAfter : Separators after
  fits : layout.Fits

/-! ## Layouts and what is written -/

theorem isDecimal_pointed {whole : List Char} {places : Option (List Char)}
    (digits : Digits whole) (digitsToo : ∀ ds ∈ places, Digits ds) :
    IsDecimal (whole ++ pointed places) := by
  cases places with
  | none =>
    rw [pointed, List.append_nil]
    exact .whole digits
  | some ds => exact .fraction digits (digitsToo ds rfl)

theorem isNumber_chars {negative : Bool} {whole : List Char} {places : Option (List Char)}
    (fits : (Layout.number negative whole places).Fits) :
    IsNumber (Layout.number negative whole places).chars := by
  have decimal := isDecimal_pointed fits.1 fits.2
  cases negative with
  | true => exact .negative decimal
  | false => exact .positive decimal

mutual

theorem Layout.Fits.writes : ∀ {layout : Layout}, layout.Fits → Writes layout.chars layout.item
  | .symbol _ _, ⟨isAlpha, all⟩ => .symbol (.mk isAlpha all)
  | .number _ _ _, fits => .number (isNumber_chars fits)
  | .string _, plain => .string plain
  | .list _ _, ⟨fits, separators⟩ => .list fits.writesAll separators

theorem Layouts.Fits.writesAll : ∀ {layouts : Layouts},
    layouts.Fits → WritesAll layouts.chars layouts.items
  | .nil, _ => .nil
  | .cons _ _ _, ⟨separators, fits, boundary, fitsMore⟩ =>
    .cons separators fits.writes boundary fitsMore.writesAll

end

theorem IsDecimal.exists_pointed {cs : List Char} (decimal : IsDecimal cs) :
    ∃ whole places, Digits whole ∧ (∀ ds ∈ places, Digits ds) ∧ cs = whole ++ pointed places := by
  cases decimal with
  | whole digits =>
    refine ⟨cs, none, digits, ?_, (List.append_nil cs).symm⟩
    rintro _ ⟨⟩
  | @fraction whole places digits digitsToo =>
    refine ⟨whole, some places, digits, ?_, rfl⟩
    rintro _ ⟨⟩
    exact digitsToo

theorem IsNumber.exists_layout {cs : List Char} (number : IsNumber cs) :
    ∃ negative whole places, (Layout.number negative whole places).Fits ∧
      (Layout.number negative whole places).chars = cs := by
  cases number with
  | positive decimal =>
    obtain ⟨whole, places, digits, digitsToo, rfl⟩ := decimal.exists_pointed
    exact ⟨false, whole, places, ⟨digits, digitsToo⟩, rfl⟩
  | negative decimal =>
    obtain ⟨whole, places, digits, digitsToo, rfl⟩ := decimal.exists_pointed
    exact ⟨true, whole, places, ⟨digits, digitsToo⟩, rfl⟩

mutual

theorem Writes.exists_layout : ∀ {cs : List Char} {item : Sexp}, Writes cs item →
    ∃ layout : Layout, layout.Fits ∧ layout.chars = cs ∧ layout.item = item
  | _, _, .symbol (.mk isAlpha all) => ⟨.symbol _ _, ⟨isAlpha, all⟩, rfl, rfl⟩
  | _, _, .number isNumber => by
    obtain ⟨negative, whole, places, fits, rfl⟩ := isNumber.exists_layout
    exact ⟨.number negative whole places, fits, rfl, rfl⟩
  | _, _, .string plain => ⟨.string _, plain, rfl, rfl⟩
  | _, _, .list written separators => by
    obtain ⟨items, fits, rfl, rfl⟩ := written.exists_layouts
    exact ⟨.list items _, ⟨fits, separators⟩, rfl, rfl⟩

theorem WritesAll.exists_layouts : ∀ {cs : List Char} {items : List Sexp}, WritesAll cs items →
    ∃ layouts : Layouts, layouts.Fits ∧ layouts.chars = cs ∧ layouts.items = items
  | _, _, .nil => ⟨.nil, trivial, rfl, rfl⟩
  | _, _, .cons separators written boundary writtenMore => by
    obtain ⟨item, fits, rfl, rfl⟩ := written.exists_layout
    obtain ⟨more, fitsMore, rfl, rfl⟩ := writtenMore.exists_layouts
    exact ⟨.cons _ item more, ⟨separators, fits, boundary, fitsMore⟩, rfl, rfl⟩

end

/-! ## One layout at most -/

/-- Where the characters of one kind end is settled by the text. -/
theorem split_unique {p : Char → Bool} {cs cs' rest rest' : List Char} (all : ∀ c ∈ cs, p c = true)
    (all' : ∀ c ∈ cs', p c = true) (stops : Stops p rest) (stops' : Stops p rest')
    (same : cs ++ rest = cs' ++ rest') : cs = cs' ∧ rest = rest' := by
  have front := congrArg (List.takeWhile p) same
  have back := congrArg (List.dropWhile p) same
  rw [takeWhile_append_stops all stops, takeWhile_append_stops all' stops'] at front
  rw [dropWhile_append_stops all stops, dropWhile_append_stops all' stops'] at back
  exact ⟨front, back⟩

def Layout.kind : Layout → ItemKind
  | .symbol .. => .symbol
  | .number .. => .number
  | .string .. => .string
  | .list .. => .list

/-- The kind of the item that starts with a character. -/
def kindOfHead (c : Char) : ItemKind :=
  if c = '(' then .list
  else if c = '\'' then .string
  else if c = '-' ∨ c.isDigit then .number
  else .symbol

theorem kindOfHead_of_isDigit {c : Char} (isDigit : c.isDigit = true) :
    kindOfHead c = .number := by
  have noOpen : c ≠ '(' := by rintro rfl; cases isDigit
  have noQuote : c ≠ '\'' := by rintro rfl; cases isDigit
  rw [kindOfHead, if_neg noOpen, if_neg noQuote, if_pos (.inr isDigit)]

theorem kindOfHead_of_isAlpha {c : Char} (isAlpha : c.isAlpha = true) :
    kindOfHead c = .symbol := by
  have noOpen : c ≠ '(' := by rintro rfl; cases isAlpha
  have noQuote : c ≠ '\'' := by rintro rfl; cases isAlpha
  have noSign : c ≠ '-' := by rintro rfl; cases isAlpha
  have noDigit : ¬ c.isDigit = true := by
    rw [not_isDigit_of_isAlpha isAlpha]
    decide
  rw [kindOfHead, if_neg noOpen, if_neg noQuote, if_neg (not_or.2 ⟨noSign, noDigit⟩)]

theorem Layout.Fits.exists_head {layout : Layout} (fits : layout.Fits) :
    ∃ c more, layout.chars = c :: more ∧ kindOfHead c = layout.kind := by
  cases layout with
  | symbol first more => exact ⟨first, more, rfl, kindOfHead_of_isAlpha fits.1⟩
  | string cs => exact ⟨'\'', cs ++ ['\''], rfl, rfl⟩
  | list items gap => exact ⟨'(', _, rfl, rfl⟩
  | number negative whole places =>
    cases negative with
    | true => exact ⟨'-', _, rfl, rfl⟩
    | false =>
      obtain ⟨c, more, chars, isDigit⟩ := (isDecimal_pointed fits.1 fits.2).exists_digit
      exact ⟨c, more, chars, kindOfHead_of_isDigit isDigit⟩

theorem Layout.Fits.stops_isSeparator {layout : Layout} (fits : layout.Fits) (rest : List Char) :
    Stops isSeparator (layout.chars ++ rest) :=
  fits.writes.stops_isSeparator rest

theorem Layout.Fits.kind_eq {layout layout' : Layout} {rest rest' : List Char}
    (fits : layout.Fits) (fits' : layout'.Fits)
    (same : layout.chars ++ rest = layout'.chars ++ rest') : layout.kind = layout'.kind := by
  obtain ⟨c, more, chars, kind⟩ := fits.exists_head
  obtain ⟨c', more', chars', kind'⟩ := fits'.exists_head
  rw [chars, chars', List.cons_append, List.cons_append] at same
  rw [← kind, ← kind', (List.cons.inj same).1]

theorem pointed_unique {places places' : Option (List Char)} {rest rest' : List Char}
    (digits : ∀ ds ∈ places, Digits ds) (digits' : ∀ ds ∈ places', Digits ds)
    (boundary : isBoundary rest = true) (boundary' : isBoundary rest' = true)
    (same : pointed places ++ rest = pointed places' ++ rest') :
    places = places' ∧ rest = rest' := by
  cases places with
  | none =>
    cases places' with
    | none => exact ⟨rfl, same⟩
    | some ds' =>
      -- the rest would start with the point
      rw [show rest = '.' :: (ds' ++ rest') from same] at boundary
      cases boundary
  | some ds =>
    cases places' with
    | none =>
      rw [show rest' = '.' :: (ds ++ rest) from same.symm] at boundary'
      cases boundary'
    | some ds' =>
      obtain ⟨rfl, sameRest⟩ := split_unique (digits ds rfl).2 (digits' ds' rfl).2
        (stops_isDigit boundary) (stops_isDigit boundary') (List.cons.inj same).2
      exact ⟨rfl, sameRest⟩

theorem stops_pointed (places : Option (List Char)) {rest : List Char}
    (boundary : isBoundary rest = true) : Stops Char.isDigit (pointed places ++ rest) := by
  cases places with
  | none => exact stops_isDigit boundary
  | some ds =>
    rintro _ ⟨⟩
    decide

theorem number_unique {negative negative' : Bool} {whole whole' : List Char}
    {places places' : Option (List Char)} {rest rest' : List Char}
    (fits : (Layout.number negative whole places).Fits)
    (fits' : (Layout.number negative' whole' places').Fits)
    (boundary : isBoundary rest = true) (boundary' : isBoundary rest' = true)
    (same : (Layout.number negative whole places).chars ++ rest =
      (Layout.number negative' whole' places').chars ++ rest') :
    Layout.number negative whole places = .number negative' whole' places' ∧ rest = rest' := by
  have digitFirst {whole : List Char} {places : Option (List Char)} (digits : Digits whole)
      (digitsToo : ∀ ds ∈ places, Digits ds) (rest more : List Char) :
      whole ++ pointed places ++ rest ≠ '-' :: more := by
    obtain ⟨c, _, chars, isDigit⟩ := (isDecimal_pointed digits digitsToo).exists_digit
    rw [chars]
    rintro ⟨⟩
    cases isDigit
  have signs : negative = negative' := by
    cases negative <;> cases negative'
    · rfl
    · exact absurd same (digitFirst fits.1 fits.2 _ _)
    · exact absurd same.symm (digitFirst fits'.1 fits'.2 _ _)
    · rfl
  subst signs
  rw [Layout.chars, Layout.chars, List.append_assoc, List.append_assoc, List.append_assoc,
    List.append_assoc] at same
  obtain ⟨rfl, samePlaces⟩ := split_unique fits.1.2 fits'.1.2 (stops_pointed places boundary)
    (stops_pointed places' boundary') (List.append_cancel_left same)
  obtain ⟨rfl, sameRest⟩ := pointed_unique fits.2 fits'.2 boundary boundary' samePlaces
  exact ⟨rfl, sameRest⟩

theorem string_unique {cs cs' rest rest' : List Char} (plain : '\'' ∉ cs) (plain' : '\'' ∉ cs')
    (same : (Layout.string cs).chars ++ rest = (Layout.string cs').chars ++ rest') :
    cs = cs' ∧ rest = rest' := by
  have unquoted {cs : List Char} (plain : '\'' ∉ cs) : ∀ c ∈ cs, (c != '\'') = true := by
    intro c member
    rw [bne_iff_ne]
    rintro rfl
    exact plain member
  have stops (rest : List Char) : Stops (· != '\'') ('\'' :: rest) := by
    rintro _ ⟨⟩
    rfl
  have inside : cs ++ '\'' :: rest = cs' ++ '\'' :: rest' := by simpa [Layout.chars] using same
  obtain ⟨rfl, sameRest⟩ := split_unique (unquoted plain) (unquoted plain') (stops rest)
    (stops rest') inside
  exact ⟨rfl, (List.cons.inj sameRest).2⟩

/-- No item starts where a list ends. -/
theorem Layout.Fits.ne_close {layout : Layout} (fits : layout.Fits) (rest rest' : List Char) :
    layout.chars ++ rest ≠ ')' :: rest' := by
  obtain ⟨c, more, chars, noClose, -⟩ := fits.writes.exists_head
  rw [chars]
  rintro ⟨⟩
  exact noClose rfl

mutual

/-- The layout of an item and what follows it are settled by the text. -/
theorem Layout.unique : ∀ {layout layout' : Layout} {rest rest' : List Char},
    layout.Fits → layout'.Fits → isBoundary rest = true → isBoundary rest' = true →
      layout.chars ++ rest = layout'.chars ++ rest' → layout = layout' ∧ rest = rest'
  | .symbol first more, layout', rest, rest', fits, fits', boundary, boundary', same => by
    have kinds := fits.kind_eq fits' same
    cases layout' with
    | symbol first' more' =>
      obtain ⟨rfl, sameMore⟩ := List.cons.inj same
      obtain ⟨rfl, rfl⟩ := split_unique fits.2 fits'.2 (stops_isSymbolChar boundary)
        (stops_isSymbolChar boundary') sameMore
      exact ⟨rfl, rfl⟩
    | number | string | list => cases kinds
  | .number negative whole places, layout', rest, rest', fits, fits', boundary, boundary',
      same => by
    have kinds := fits.kind_eq fits' same
    cases layout' with
    | number => exact number_unique fits fits' boundary boundary' same
    | symbol | string | list => cases kinds
  | .string cs, layout', rest, rest', fits, fits', _, _, same => by
    have kinds := fits.kind_eq fits' same
    cases layout' with
    | string cs' =>
      obtain ⟨rfl, sameRest⟩ := string_unique fits fits' same
      exact ⟨rfl, sameRest⟩
    | symbol | number | list => cases kinds
  | .list items gap, layout', rest, rest', fits, fits', _, _, same => by
    have kinds := fits.kind_eq fits' same
    cases layout' with
    | list items' gap' =>
      have inside :
          items.chars ++ (gap ++ ')' :: rest) = items'.chars ++ (gap' ++ ')' :: rest') := by
        simpa [Layout.chars] using same
      obtain ⟨rfl, rfl, sameRest⟩ := Layouts.unique fits.1 fits'.1 fits.2 fits'.2 inside
      exact ⟨rfl, sameRest⟩
    | symbol | number | string => cases kinds

theorem Layouts.unique : ∀ {layouts layouts' : Layouts} {gap gap' rest rest' : List Char},
    layouts.Fits → layouts'.Fits → Separators gap → Separators gap' →
      layouts.chars ++ (gap ++ ')' :: rest) = layouts'.chars ++ (gap' ++ ')' :: rest') →
        layouts = layouts' ∧ gap = gap' ∧ rest = rest'
  | .nil, .nil, gap, gap', rest, rest', _, _, separators, separators', same => by
    obtain ⟨rfl, sameRest⟩ := split_unique separators separators' (stops_close rest)
      (stops_close rest') same
    exact ⟨rfl, rfl, (List.cons.inj sameRest).2⟩
  | .nil, .cons front item more, gap, gap', rest, rest', _, fits', separators, _, same => by
    obtain ⟨separators', fitsItem, -, -⟩ := fits'
    simp only [Layouts.chars, List.nil_append, List.append_assoc] at same
    obtain ⟨-, close⟩ := split_unique separators separators' (stops_close rest)
      (fitsItem.stops_isSeparator _) same
    exact absurd close.symm (fitsItem.ne_close _ _)
  | .cons front item more, .nil, gap, gap', rest, rest', fits, _, _, separators', same => by
    obtain ⟨separators, fitsItem, -, -⟩ := fits
    simp only [Layouts.chars, List.nil_append, List.append_assoc] at same
    obtain ⟨-, close⟩ := split_unique separators separators' (fitsItem.stops_isSeparator _)
      (stops_close rest') same
    exact absurd close (fitsItem.ne_close _ _)
  | .cons front item more, .cons front' item' more', gap, gap', rest, rest', fits, fits',
      separators, separators', same => by
    obtain ⟨separatorsFront, fitsItem, boundary, fitsMore⟩ := fits
    obtain ⟨separatorsFront', fitsItem', boundary', fitsMore'⟩ := fits'
    simp only [Layouts.chars, List.append_assoc] at same
    obtain ⟨rfl, sameItem⟩ := split_unique separatorsFront separatorsFront'
      (fitsItem.stops_isSeparator _) (fitsItem'.stops_isSeparator _) same
    obtain ⟨rfl, sameMore⟩ := Layout.unique fitsItem fitsItem'
      (isBoundary_append boundary (isBoundary_append separators.isBoundary rfl))
      (isBoundary_append boundary' (isBoundary_append separators'.isBoundary rfl)) sameItem
    obtain ⟨rfl, rfl, sameRest⟩ := Layouts.unique fitsMore fitsMore' separators separators' sameMore
    exact ⟨rfl, rfl, sameRest⟩

end

theorem Derivation.unique {text : String} (d d' : Derivation text) : d = d' := by
  obtain ⟨before, layout, after, whole, separatorsBefore, separatorsAfter, fits⟩ := d
  obtain ⟨before', layout', after', whole', separatorsBefore', separatorsAfter', fits'⟩ := d'
  obtain ⟨rfl, same⟩ := split_unique separatorsBefore separatorsBefore'
    (fits.stops_isSeparator after) (fits'.stops_isSeparator after') (whole.symm.trans whole')
  obtain ⟨rfl, rfl⟩ := Layout.unique fits fits' separatorsAfter.isBoundary
    separatorsAfter'.isBoundary same
  rfl

/-! ## What is read -/

theorem read_eq_ok_iff_exists_derivation {text : String} {limit : Nat} {item : Sexp} :
    read text limit = .ok item ↔
      item.depth ≤ limit ∧ ∃ d : Derivation text, d.layout.item = item := by
  rw [read_eq_ok_iff]
  refine and_congr_right fun _ => ⟨?_, ?_⟩
  · rintro ⟨before, cs, after, whole, separatorsBefore, separatorsAfter, written⟩
    obtain ⟨layout, fits, rfl, rfl⟩ := written.exists_layout
    exact ⟨⟨before, layout, after, whole, separatorsBefore, separatorsAfter, fits⟩, rfl⟩
  · rintro ⟨⟨before, layout, after, whole, separatorsBefore, separatorsAfter, fits⟩, rfl⟩
    exact ⟨before, layout.chars, after, whole, separatorsBefore, separatorsAfter, fits.writes⟩

/-- On a text with a derivation, the scan for the nesting limit is exact. -/
theorem Derivation.exceedsDepth_eq {text : String} (d : Derivation text) (limit : Nat) :
    exceedsDepth limit 0 false text.toList = decide (limit < d.layout.item.depth) := by
  have nothing : exceedsDepth limit 0 false (d.after ++ []) = exceedsDepth limit 0 false [] :=
    exceedsDepth_neutral fun c member => .of_isSeparator (d.separatorsAfter c member)
  rw [List.append_nil] at nothing
  rw [d.whole, exceedsDepth_neutral fun c member => .of_isSeparator (d.separatorsBefore c member),
    d.fits.writes.exceedsDepth_eq (Nat.zero_le limit), nothing, exceedsDepth, Nat.zero_add,
    Bool.or_false]

/-- The reader accepts the texts with a derivation in which no more lists are nested than the limit
allows, and returns what is derived. There is one derivation at most, and the scan in front of the
reader turns a text with a derivation away only if the item is too deep. -/
theorem reads_exactly_what_is_derived :
    (∀ (text : String) (limit : Nat) (item : Sexp), read text limit = .ok item ↔
      item.depth ≤ limit ∧ ∃ d : Derivation text, d.layout.item = item) ∧
    (∀ text : String, Subsingleton (Derivation text)) ∧
    ∀ (text : String) (d : Derivation text) (limit : Nat),
      exceedsDepth limit 0 false text.toList = decide (limit < d.layout.item.depth) :=
  ⟨fun _ _ _ => read_eq_ok_iff_exists_derivation, fun _ => ⟨Derivation.unique⟩,
    fun _ d limit => d.exceedsDepth_eq limit⟩

end Sexp

end SignalRules
