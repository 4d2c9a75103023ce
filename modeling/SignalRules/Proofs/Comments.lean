import Mathlib.Data.List.DropRight
import SignalRules.Proofs.Blocks

/-! # Comments in front of lines

A block comment that is put in front of the content of a line makes no difference to what is read,
as long as it runs over several lines or the line does not start with a block comment itself. If it
stands on one line and the line does, what follows is not taken for a block comment any more: a line
that starts with `/*` is refused, and one that starts with `#|` is a comment up to its end only, so
that what was commented out below it is read.
-/

namespace SignalRules

/-! ## Trimming around tags -/

namespace Text

/-- The first character is visible, and so is the last. -/
def IsFirm (cs : List Char) : Prop :=
  (∃ c rest, cs = c :: rest ∧ isBlank c = false) ∧ ∃ front c, cs = front ++ [c] ∧ isBlank c = false

theorem IsFirm.ne_nil {cs : List Char} (firm : IsFirm cs) : cs ≠ [] := by
  obtain ⟨⟨c, rest, rfl, _⟩, _⟩ := firm
  exact List.cons_ne_nil c rest

theorem dropWhile_append_visible {c : Char} (visible : isBlank c = false) (first rest : List Char) :
    (first ++ c :: rest).dropWhile isBlank = first.dropWhile isBlank ++ c :: rest := by
  rw [List.dropWhile_append]
  split
  · rename_i nothing
    rw [List.isEmpty_iff.1 nothing]
    simp [visible]
  · rfl

/-- In front of a firm part there is trimming at the front only, and behind it at the end only. -/
theorem trim_around {part : List Char} (firm : IsFirm part) (first rest : List Char) :
    trim (first ++ (part ++ rest)) =
      first.dropWhile isBlank ++ (part ++ rest.rdropWhile isBlank) := by
  have front : (first ++ (part ++ rest)).dropWhile isBlank =
      first.dropWhile isBlank ++ (part ++ rest) := by
    obtain ⟨⟨c, more, rfl, visible⟩, _⟩ := firm
    exact dropWhile_append_visible visible ..
  have back : (first.dropWhile isBlank ++ (part ++ rest)).reverse.dropWhile isBlank =
      rest.reverse.dropWhile isBlank ++ (first.dropWhile isBlank ++ part).reverse := by
    obtain ⟨_, more, c, rfl, visible⟩ := firm
    simpa using dropWhile_append_visible visible rest.reverse
      (more.reverse ++ (first.dropWhile isBlank).reverse)
  rw [trim, front, back, List.rdropWhile]
  simp

theorem trim_indent {indent : List Char} (blanks : ∀ c ∈ indent, isBlank c) (cs : List Char) :
    trim (indent ++ cs) = trim cs := by
  rw [trim, List.dropWhile_append_of_pos blanks, trim]

theorem trim_infix (cs : List Char) : trim cs <:+: cs :=
  (List.rdropWhile_prefix isBlank _).isInfix.trans (List.dropWhile_suffix isBlank).isInfix

theorem trim_append_blank {c : Char} (blank : isBlank c = true) (cs : List Char) :
    trim (cs ++ [c]) = trim cs := by
  rw [trim, List.dropWhile_append]
  split
  · rename_i nothing
    rw [trim, List.isEmpty_iff.1 nothing]
    simp [blank]
  · rw [trim, List.reverse_append, List.reverse_singleton, List.singleton_append,
      List.dropWhile_cons_of_pos blank]

theorem trim_rdropWhile (cs : List Char) : trim (cs.rdropWhile isBlank) = trim cs := by
  induction cs using List.reverseRecOn with
  | nil => rfl
  | append_singleton cs c ih =>
    cases blank : isBlank c with
    | true =>
      rw [List.rdropWhile_concat_pos _ _ _ blank, ih, trim_append_blank blank]
    | false => rw [List.rdropWhile_concat_neg _ _ _ (by simp [blank])]

end Text

namespace RuleText

/-! ## What lines say -/

/-- What lines say to the grammar, and whether a comment is open behind them. -/
def gist (opened : Option OpenComment) (number : Nat) (raws : List (List Char)) :
    List Sign × Bool :=
  (signs opened number raws, (openAfter opened number raws).isSome)

theorem gist_cons (opened : Option OpenComment) (number : Nat) (raw : List Char)
    (raws : List (List Char)) :
    gist opened number (raw :: raws) =
      ((strip opened number raw).2.sign?.toList ++
          (gist (strip opened number raw).1 (number + 1) raws).1,
        (gist (strip opened number raw).1 (number + 1) raws).2) :=
  rfl

theorem gist_append {opened opened' : Option OpenComment} {number : Nat}
    {first : List (List Char)} (behind : openAfter opened number first = opened')
    (rest : List (List Char)) :
    gist opened number (first ++ rest) =
      (signs opened number first ++ (gist opened' (number + first.length) rest).1,
        (gist opened' (number + first.length) rest).2) := by
  rw [gist, signs_append, openAfter_append, behind]
  rfl

theorem stripFront_number (m n : Nat) (line : List Char) :
    (stripFront m line).2 = (stripFront n line).2 ∧
      (stripFront m line).1.map OpenComment.close =
        (stripFront n line).1.map OpenComment.close := by
  unfold stripFront
  split
  · exact ⟨rfl, rfl⟩
  · split <;> exact ⟨rfl, rfl⟩

theorem strip_number {opened opened' : Option OpenComment}
    (same : opened.map OpenComment.close = opened'.map OpenComment.close) (m n : Nat)
    (raw : List Char) :
    (strip opened m raw).2 = (strip opened' n raw).2 ∧
      (strip opened m raw).1.map OpenComment.close =
        (strip opened' n raw).1.map OpenComment.close := by
  cases opened with
  | none =>
    cases Option.map_eq_none_iff.1 same.symm
    rw [strip, strip]
    split
    · exact ⟨rfl, rfl⟩
    · exact stripFront_number m n _
  | some comment =>
    obtain ⟨comment', rfl, close⟩ := Option.map_eq_some_iff.1 same.symm
    simp only [strip, close]
    split
    · exact ⟨rfl, congrArg some close.symm⟩
    · exact stripFront_number m n _

/-- It makes no difference to what lines say which numbers they have. -/
theorem gist_number {opened opened' : Option OpenComment}
    (same : opened.map OpenComment.close = opened'.map OpenComment.close) (m n : Nat)
    (raws : List (List Char)) : gist opened m raws = gist opened' n raws := by
  induction raws generalizing opened opened' m n with
  | nil => simpa [gist, signs, openAfter] using congrArg Option.isSome same
  | cons raw raws ih =>
    obtain ⟨content, closes⟩ := strip_number same m n raw
    rw [gist_cons, gist_cons, content, ih closes]

/-- Policies look at the records only. -/
theorem select_congr {scope : Option Scope} {policy : ImportPolicy} {rules rules' : List Located}
    (whole : ∀ rule ∈ rules, rule.IsWhole) (whole' : ∀ rule ∈ rules', rule.IsWhole)
    (same : rules.map Located.record = rules'.map Located.record) {report : ImportReport} :
    select scope policy rules = .ok report ↔ select scope policy rules' = .ok report := by
  cases scope with
  | none => simp only [select, same]
  | some scope =>
    cases policy with
    | strict => rw [select_strict_eq_ok_iff whole, select_strict_eq_ok_iff whole', same]
    | allowErrors => simp only [select, same]
    | skipInvalid =>
      have lengths := congrArg List.length same
      have kept : (rules.filter fun rule => (rule.check scope).isOk).map Located.record = _ :=
        map_filter_isOk whole
      rw [same, ← map_filter_isOk whole'] at kept
      have keptLengths := congrArg List.length kept
      simp only [List.length_map] at lengths keptLengths
      simp only [select, kept, lengths, keptLengths]

/-- Texts that say the same are imported alike. -/
theorem read_congr {text text' : String}
    (same : gist none 1 (lines text.toList) = gist none 1 (lines text'.toList))
    (scope : Option Scope) (policy : ImportPolicy) (report : ImportReport) :
    read scope policy text = .ok report ↔ read scope policy text' = .ok report := by
  obtain ⟨signs, closed⟩ := Prod.mk.inj same
  have sound : (scan text).2 = none ↔ (scan text').2 = none := by
    rw [scan_sound_iff, scan_sound_iff, signs, ← Option.not_isSome_iff_eq_none, closed,
      Option.not_isSome_iff_eq_none]
  rw [read_eq_ok_iff, read_eq_ok_iff, sound]
  refine and_congr_right fun sound' => select_congr isWhole_of_scan isWhole_of_scan ?_
  have blocks := (blocks_of_sound (sound.2 sound')).2
  rw [signs] at blocks
  exact blocks.unique (blocks_of_sound sound').2

/-! ## Comments -/

/-- A tag ends what stands in front of it: in the two together it does not occur earlier. -/
def EndsFirst (close body : List Char) : Prop :=
  ∀ n < body.length, ¬close <+: (body ++ close).drop n

namespace EndsFirst

variable {close body first rest : List Char}

theorem of_append (ends : EndsFirst close (first ++ rest)) : EndsFirst close rest := by
  intro n inside isPrefix
  refine ends (first.length + n) (by simpa using inside) ?_
  rwa [List.append_assoc, List.drop_append, List.drop_eq_nil_of_le (Nat.le_add_right ..),
    Nat.add_sub_cancel_left]

theorem not_infix {c : Char} (ends : EndsFirst close (first ++ c :: rest)) : ¬close <:+: first := by
  rintro ⟨before, after, rfl⟩
  refine ends before.length ?_ ⟨after ++ c :: rest ++ close, ?_⟩
  · simp only [List.length_append, List.length_cons]
    omega
  · simp

theorem after?_eq (ends : EndsFirst close body) (visible : close ≠ []) (rest : List Char) :
    after? close (body ++ (close ++ rest)) = some rest := by
  induction body with
  | nil =>
    obtain ⟨c, cs, rfl⟩ := List.exists_cons_of_ne_nil visible
    have here : (c :: cs).isPrefixOf (c :: (cs ++ rest)) := by simp
    rw [List.nil_append, List.cons_append, after?, if_pos here,
      ← List.cons_append, List.drop_left]
  | cons c body ih =>
    have notHere : ¬close.isPrefixOf (c :: (body ++ (close ++ rest))) := by
      intro isPrefix
      refine ends 0 (by simp) ?_
      refine List.prefix_of_prefix_length_le (List.isPrefixOf_iff_prefix.1 isPrefix) ⟨rest, ?_⟩ ?_
      · simp
      · simp only [List.drop_zero, List.length_append, List.length_cons]
        omega
    have ends : EndsFirst close ([c] ++ body) := ends
    rw [List.cons_append, after?, if_neg notHere, ih ends.of_append]

end EndsFirst

theorem isFirm_of_mem {opening close : List Char} (listed : (opening, close) ∈ blockComments) :
    Text.IsFirm opening ∧ Text.IsFirm close := by
  simp only [blockComments, List.mem_cons, Prod.mk.injEq, List.not_mem_nil, or_false] at listed
  rcases listed with ⟨rfl, rfl⟩ | ⟨rfl, rfl⟩ <;>
    exact ⟨⟨⟨_, _, rfl, by decide⟩, [_], _, rfl, by decide⟩,
      ⟨⟨_, _, rfl, by decide⟩, [_], _, rfl, by decide⟩⟩

section

variable {opening close body indent : List Char}

theorem dropWhile_indent {tag : List Char} (firm : Text.IsFirm tag)
    (blanks : ∀ c ∈ indent, Text.isBlank c) (rest : List Char) :
    (indent ++ (tag ++ rest)).dropWhile Text.isBlank = tag ++ rest := by
  obtain ⟨⟨c, more, rfl, visible⟩, _⟩ := firm
  rw [List.dropWhile_append_of_pos blanks]
  exact List.dropWhile_cons_of_neg (by simp [visible])

/-- A comment on one line is taken away, and behind it there is no second look for another. -/
theorem strip_comment (listed : (opening, close) ∈ blockComments) (ends : EndsFirst close body)
    (blanks : ∀ c ∈ indent, Text.isBlank c) (number : Nat) (line : List Char) :
    strip none number (indent ++ (opening ++ (body ++ (close ++ line)))) =
      (none, content (Text.trim line)) := by
  obtain ⟨firm, firm'⟩ := isFirm_of_mem listed
  have trimmed : Text.trim (indent ++ (opening ++ (body ++ (close ++ line)))) =
      opening ++ (body ++ (close ++ line.rdropWhile Text.isBlank)) := by
    have around := Text.trim_around firm' (indent ++ (opening ++ body)) line
    rw [dropWhile_indent firm blanks] at around
    simpa using around
  have visible :
      (opening ++ (body ++ (close ++ line.rdropWhile Text.isBlank))).isEmpty = false := by
    simp [firm.ne_nil]
  simp only [strip, trimmed, visible, stripFront, find?_blockComments listed, List.drop_left,
    ends.after?_eq firm'.ne_nil, Text.trim_rdropWhile]
  rfl

/-- Behind the end of a comment of earlier lines there is a second look. -/
theorem strip_end (firm : Text.IsFirm close) (ends : EndsFirst close body) (opened number : Nat)
    (line : List Char) :
    strip (some ⟨close, opened⟩) number (body ++ (close ++ line)) =
      stripFront number (Text.trim line) := by
  obtain ⟨blanks, whole⟩ := List.dropWhile_suffix (l := body) Text.isBlank
  have ends : EndsFirst close (body.dropWhile Text.isBlank) := by
    rw [← whole] at ends
    exact ends.of_append
  simp only [strip, Text.trim_around firm, ends.after?_eq firm.ne_nil,
    Text.trim_rdropWhile]

theorem strip_opening (listed : (opening, close) ∈ blockComments) {first : List Char}
    (lasts : ¬close <:+: first) (blanks : ∀ c ∈ indent, Text.isBlank c) (number : Nat) :
    strip none number (indent ++ (opening ++ first)) = (some ⟨close, number⟩, .comment) := by
  obtain ⟨firm, _⟩ := isFirm_of_mem listed
  have trimmed : Text.trim (indent ++ (opening ++ first)) =
      opening ++ first.rdropWhile Text.isBlank := by
    rw [Text.trim_indent blanks]
    simpa using Text.trim_around firm [] first
  have goesOn : after? close (first.rdropWhile Text.isBlank) = none :=
    after?_eq_none_iff.2 fun inside => lasts (inside.trans (List.rdropWhile_prefix _ _).isInfix)
  have visible : (opening ++ first.rdropWhile Text.isBlank).isEmpty = false := by
    simp [firm.ne_nil]
  simp only [strip, trimmed, visible, stripFront, find?_blockComments listed, List.drop_left,
    goesOn]
  rfl

theorem strip_semicolon (blanks : ∀ c ∈ indent, Text.isBlank c) (number : Nat)
    (line : List Char) : strip none number (indent ++ ([';'] ++ line)) = (none, .comment) := by
  have firm : Text.IsFirm [';'] := ⟨⟨';', [], rfl, by decide⟩, [], ';', rfl, by decide⟩
  have trimmed := Text.trim_around firm [] line
  rw [strip, Text.trim_indent blanks]
  simp only [List.nil_append] at trimmed
  rw [trimmed]
  simp [stripFront, blockComments, content, lineComments]

theorem strip_visible {line : List Char} (visible : Text.trim line ≠ [])
    (blanks : ∀ c ∈ indent, Text.isBlank c) (number : Nat) :
    strip none number (indent ++ line) = stripFront number (Text.trim line) := by
  rw [strip, Text.trim_indent blanks, if_neg (by simpa using visible)]

end

/-! ## Lines with a comment in front -/

theorem lines_before {cs tail : List Char} (nonempty : cs ≠ []) (oneLine : '\n' ∉ cs)
    (ends : tail = [] ∨ ∃ more, tail = '\n' :: more) :
    lines (cs ++ tail) = cs :: lines tail.tail := by
  rcases ends with rfl | ⟨more, rfl⟩
  · rw [List.append_nil]
    induction cs with
    | nil => exact absurd rfl nonempty
    | cons c cs ih =>
      rw [List.mem_cons, not_or] at oneLine
      rw [lines, if_neg (Ne.symm oneLine.1)]
      cases cs with
      | nil => rfl
      | cons c' cs => rw [ih (List.cons_ne_nil c' cs) oneLine.2]
  · exact lines_append oneLine more

theorem lines_whole {before : List (List Char)} (oneLine : ∀ line ∈ before, '\n' ∉ line)
    (rest : List Char) :
    lines (before.flatMap (· ++ ['\n']) ++ rest) = before ++ lines rest := by
  induction before with
  | nil => rfl
  | cons line before ih =>
    rw [List.forall_mem_cons] at oneLine
    simp [lines_append oneLine.1, ih oneLine.2]

/-- The first of some lines is followed by the others, if there are any. -/
theorem exists_of_lines_eq_cons : ∀ {cs line : List Char} {rest : List (List Char)},
    lines cs = line :: rest → ∃ tail, cs = line ++ tail ∧
      (tail = [] ∨ ∃ more, tail = '\n' :: more) ∧ lines tail.tail = rest
  | [], _, _, split => by cases split
  | c :: cs, line, rest, split => by
    rw [lines] at split
    split at split
    · rename_i newline
      cases split
      exact ⟨c :: cs, rfl, .inr ⟨cs, by rw [newline]⟩, rfl⟩
    · split at split
      · rename_i nothing
        cases split
        cases cs with
        | nil => exact ⟨[], rfl, .inl rfl, rfl⟩
        | cons c' cs =>
          rw [lines] at nothing
          split at nothing
          · cases nothing
          · split at nothing <;> cases nothing
      · rename_i first others found
        cases split
        obtain ⟨tail, rfl, ends, others⟩ := exists_of_lines_eq_cons found
        exact ⟨tail, rfl, ends, others⟩

theorem exists_of_lines_eq_append {cs : List Char} {before : List (List Char)}
    {rest : List (List Char)} (split : lines cs = before ++ rest) (nonempty : rest ≠ []) :
    ∃ tail, cs = before.flatMap (· ++ ['\n']) ++ tail ∧ lines tail = rest := by
  induction before generalizing cs with
  | nil => exact ⟨cs, rfl, split⟩
  | cons line before ih =>
    obtain ⟨tail, rfl, rfl | ⟨more, rfl⟩, others⟩ := exists_of_lines_eq_cons split
    · have nothing := (List.append_eq_nil_iff.1 others.symm).2
      exact absurd nothing nonempty
    · obtain ⟨tail, rfl, behind⟩ := ih others
      exact ⟨tail, by simp, behind⟩

/-- A place in front of what a line has to say, on a line that does not begin in a comment. -/
structure Place where
  before : List (List Char)
  indent : List Char
  line : List Char
  tail : List Char
  wholeLines : ∀ raw ∈ before, '\n' ∉ raw
  outside : openAfter none 1 before = none
  blanks : ∀ c ∈ indent, Text.isBlank c ∧ c ≠ '\n'
  visible : Text.trim line ≠ []
  oneLine : '\n' ∉ line
  ends : tail = [] ∨ ∃ more, tail = '\n' :: more

namespace Place

variable (place : Place)

/-- From the line of the place on, with this put there. -/
def behind (cs : List Char) : List Char :=
  place.indent ++ (cs ++ (place.line ++ place.tail))

def text (cs : List Char) : String :=
  String.ofList (place.before.flatMap (· ++ ['\n']) ++ place.behind cs)

/-- A place is on any line of a text that is not blank and does not begin in a comment. -/
theorem exists_of_lines {text : String} {before after : List (List Char)} {raw : List Char}
    (split : lines text.toList = before ++ raw :: after) (outside : openAfter none 1 before = none)
    (visible : Text.trim raw ≠ []) :
    ∃ place : Place, place.before = before ∧ place.indent ++ place.line = raw ∧
      place.text [] = text := by
  have oneLine : ∀ line ∈ before ++ raw :: after, '\n' ∉ line := fun line member =>
    oneLine_of_mem_lines (split ▸ member)
  obtain ⟨chars, whole, lines_eq⟩ :=
    exists_of_lines_eq_append split (List.cons_ne_nil raw after)
  obtain ⟨tail, rfl, ends, -⟩ := exists_of_lines_eq_cons lines_eq
  have unbroken : '\n' ∉ raw := oneLine raw (by simp)
  have blanks : ∀ c ∈ raw.takeWhile Text.isBlank, Text.isBlank c = true := fun c member =>
    List.mem_takeWhile_imp member
  have halves := List.takeWhile_append_dropWhile (p := Text.isBlank) (l := raw)
  have visible : Text.trim (raw.dropWhile Text.isBlank) ≠ [] := by
    rwa [← Text.trim_indent blanks, halves]
  refine ⟨⟨before, raw.takeWhile Text.isBlank, raw.dropWhile Text.isBlank, tail,
    fun line member => oneLine line (by simp [member]), outside, fun c member => ⟨blanks c member,
      fun newline => unbroken (newline ▸ (List.takeWhile_prefix _).subset member)⟩, visible,
    fun member => unbroken ((List.dropWhile_suffix _).subset member), ends⟩, rfl, halves, ?_⟩
  rw [Place.text, behind, List.nil_append, ← List.append_assoc _ _ tail, halves, ← whole,
    String.ofList_toList]

theorem gist_text (cs : List Char) :
    gist none 1 (lines (place.text cs).toList) =
      (signs none 1 place.before ++
          (gist none (1 + place.before.length) (lines (place.behind cs))).1,
        (gist none (1 + place.before.length) (lines (place.behind cs))).2) := by
  rw [text, String.toList_ofList, lines_whole place.wholeLines, gist_append place.outside]

theorem read_text_congr {cs cs' : List Char}
    (same : ∀ m n, gist none m (lines (place.behind cs)) = gist none n (lines (place.behind cs')))
    (scope : Option Scope) (policy : ImportPolicy) (report : ImportReport) :
    read scope policy (place.text cs) = .ok report ↔
      read scope policy (place.text cs') = .ok report := by
  apply read_congr
  rw [gist_text, gist_text, same _ (1 + place.before.length)]

theorem line_ne_nil : place.line ≠ [] := by
  intro nothing
  exact place.visible (by rw [nothing]; rfl)

theorem blank_indent : ∀ c ∈ place.indent, Text.isBlank c :=
  fun c member => (place.blanks c member).1

theorem oneLine_indent : '\n' ∉ place.indent :=
  fun member => (place.blanks _ member).2 rfl

theorem lines_behind {cs : List Char} (oneLine : '\n' ∉ cs) :
    lines (place.behind cs) =
      (place.indent ++ (cs ++ place.line)) :: lines place.tail.tail := by
  have front : lines ((place.indent ++ (cs ++ place.line)) ++ place.tail) = _ :=
    lines_before (by simp [place.line_ne_nil])
      (by simp [place.oneLine_indent, oneLine, place.oneLine]) place.ends
  simpa [behind] using front

/-- With the comment open that ends in front of the line, all is as it is without. -/
theorem gist_within {close : List Char} (firm : Text.IsFirm close) (unbroken : '\n' ∉ close)
    (opened m n : Nat) : ∀ {body : List Char}, EndsFirst close body →
    gist (some ⟨close, opened⟩) m (lines (body ++ (close ++ (place.line ++ place.tail)))) =
      gist none n (lines (place.behind []))
  | body, ends => by
    by_cases breaks : '\n' ∈ body
    · obtain ⟨first, rest, split, front⟩ := List.eq_append_cons_of_mem breaks
      have shorter : rest.length < body.length := by
        simp only [split, List.length_append, List.length_cons]
        omega
      rw [split] at ends ⊢
      have lasts : ¬close <:+: first := ends.not_infix
      have covered : uncovered? (some ⟨close, opened⟩) first = none :=
        Option.map_eq_none_iff.2
          (after?_eq_none_iff.2 fun inside => lasts (inside.trans (Text.trim_infix first)))
      rw [List.append_cons] at ends
      rw [List.append_assoc, List.cons_append, lines_append front, gist_cons,
        strip_of_covered covered]
      exact gist_within firm unbroken opened (m + 1) n ends.of_append
    · have last : lines ((body ++ (close ++ place.line)) ++ place.tail) = _ :=
        lines_before (by simp [place.line_ne_nil]) (by simp [breaks, unbroken, place.oneLine])
          place.ends
      simp only [List.append_assoc] at last
      rw [gist_number rfl n m, last, place.lines_behind List.not_mem_nil, gist_cons, gist_cons,
        strip_end firm ends, List.nil_append, strip_visible place.visible place.blank_indent]
termination_by body => body.length

end Place

/-- A block comment up to the first tag that closes it. -/
structure BlockComment where
  opening : List Char
  close : List Char
  body : List Char
  listed : (opening, close) ∈ blockComments
  ends : EndsFirst close body

namespace BlockComment

variable (comment : BlockComment)

def chars : List Char :=
  comment.opening ++ (comment.body ++ comment.close)

theorem isFirm_close : Text.IsFirm comment.close :=
  (isFirm_of_mem comment.listed).2

theorem unbroken_tags : '\n' ∉ comment.opening ∧ '\n' ∉ comment.close := by
  have listed := comment.listed
  simp only [blockComments, List.mem_cons, Prod.mk.injEq, List.not_mem_nil, or_false] at listed
  rcases listed with ⟨opens, closes⟩ | ⟨opens, closes⟩ <;> simp [opens, closes]

end BlockComment

namespace Place

variable (place : Place) (comment : BlockComment)

theorem gist_of_breaks (breaks : '\n' ∈ comment.body) (m n : Nat) :
    gist none m (lines (place.behind comment.chars)) = gist none n (lines (place.behind [])) := by
  obtain ⟨first, rest, split, front⟩ := List.eq_append_cons_of_mem breaks
  have ends : EndsFirst comment.close (first ++ '\n' :: rest) := split ▸ comment.ends
  have firstLine : lines (place.behind comment.chars) =
      (place.indent ++ (comment.opening ++ first)) ::
        lines (rest ++ (comment.close ++ (place.line ++ place.tail))) := by
    rw [← lines_append (by simp [place.oneLine_indent, comment.unbroken_tags.1, front])]
    simp [behind, BlockComment.chars, split]
  rw [firstLine, gist_cons, strip_opening comment.listed ends.not_infix
    place.blank_indent]
  rw [List.append_cons] at ends
  exact place.gist_within comment.isFirm_close comment.unbroken_tags.2 m (m + 1) n ends.of_append

theorem gist_of_unbroken (unbroken : '\n' ∉ comment.body) (number : Nat) :
    gist none number (lines (place.behind comment.chars)) =
      ((content (Text.trim place.line)).sign?.toList ++
          (gist none (number + 1) (lines place.tail.tail)).1,
        (gist none (number + 1) (lines place.tail.tail)).2) := by
  have oneLine : '\n' ∉ comment.chars := by
    simp [BlockComment.chars, comment.unbroken_tags, unbroken]
  rw [place.lines_behind oneLine, gist_cons, BlockComment.chars, List.append_assoc,
    List.append_assoc, strip_comment comment.listed comment.ends place.blank_indent]

theorem gist_bare (plain : ∀ tags ∈ blockComments, ¬tags.1 <+: Text.trim place.line)
    (number : Nat) :
    gist none number (lines (place.behind [])) =
      ((content (Text.trim place.line)).sign?.toList ++
          (gist none (number + 1) (lines place.tail.tail)).1,
        (gist none (number + 1) (lines place.tail.tail)).2) := by
  have noTag : blockComments.find? (fun tags => tags.1.isPrefixOf (Text.trim place.line)) =
      none := by
    simpa [List.find?_eq_none] using plain
  rw [place.lines_behind List.not_mem_nil, gist_cons, List.nil_append,
    strip_visible place.visible place.blank_indent, stripFront, noTag]

end Place

/-- A line that starts with `/*` is no entry. -/
theorem content_slash {line : List Char} (starts : ['/', '*'] <+: line) :
    (content line).sign? = some .malformed := by
  obtain ⟨rest, rfl⟩ := starts
  have noEntry : ∀ field value, ¬IsEntry (['/', '*'] ++ rest) field value := by
    rintro field value ⟨key, rest', split, -, known, -⟩
    have firm : Text.IsFirm ['/'] := ⟨⟨'/', [], rfl, by decide⟩, [], '/', rfl, by decide⟩
    cases key with
    | nil => simp at split
    | cons c key =>
      cases (List.cons.inj split).1
      have slash := Text.trim_around firm [] key
      rw [List.nil_append, List.singleton_append, known] at slash
      cases field <;> simp [RuleField.key] at slash
  have text : content (['/', '*'] ++ rest) = .text (['/', '*'] ++ rest) := by
    simp [content, lineComments]
  rw [text, Content.sign?]
  cases entry : readEntry (['/', '*'] ++ rest) with
  | ok parts => exact absurd (readEntry_eq_ok_iff.1 entry) (noEntry parts.1 parts.2)
  | error _ => rfl

theorem content_hash {line : List Char} (starts : ['#', '|'] <+: line) :
    content line = .comment := by
  obtain ⟨rest, rfl⟩ := starts
  simp [content, lineComments]

theorem Blocks.malformed_notMem {signs : List Sign} {records : List RuleRecord}
    (blocks : Blocks signs records) : .malformed ∉ signs := by
  induction blocks with
  | nil => exact List.not_mem_nil
  | blank _ ih => simpa using ih
  | block record _ ih => simpa [RuleRecord.signs] using ih

namespace Place

variable (place : Place) (comment : BlockComment)

theorem transparent (eitherWay : '\n' ∈ comment.body ∨
      ∀ tags ∈ blockComments, ¬tags.1 <+: Text.trim place.line) (scope : Option Scope)
    (policy : ImportPolicy) (report : ImportReport) :
    read scope policy (place.text comment.chars) = .ok report ↔
      read scope policy (place.text []) = .ok report := by
  refine place.read_text_congr (fun m n => ?_) scope policy report
  by_cases breaks : '\n' ∈ comment.body
  · exact place.gist_of_breaks comment breaks m n
  · have plain := eitherWay.resolve_left breaks
    rw [gist_number rfl m n, place.gist_of_unbroken comment breaks, place.gist_bare plain]

/-- Behind a comment on the same line, one in the first style is taken for text. -/
theorem refused (unbroken : '\n' ∉ comment.body) (starts : ['/', '*'] <+: Text.trim place.line)
    (scope : Option Scope) (policy : ImportPolicy) (report : ImportReport) :
    read scope policy (place.text comment.chars) ≠ .ok report := by
  intro imported
  have sound : (scan (place.text comment.chars)).2 = none := (read_eq_ok_iff.1 imported).1
  obtain ⟨_, records, blocks⟩ := scan_sound_iff.1 sound
  have signs := congrArg Prod.fst (place.gist_text comment.chars)
  rw [place.gist_of_unbroken comment unbroken, content_slash starts] at signs
  have signs : RuleText.signs none 1 (lines (place.text comment.chars).toList) = _ := signs
  rw [signs] at blocks
  exact blocks.malformed_notMem (by simp)

/-- One in the other style is taken for a comment up to the end of the line. -/
theorem unclosed (unbroken : '\n' ∉ comment.body) (starts : ['#', '|'] <+: Text.trim place.line)
    (scope : Option Scope) (policy : ImportPolicy) (report : ImportReport) :
    read scope policy (place.text comment.chars) = .ok report ↔
      read scope policy (place.text [';']) = .ok report := by
  refine place.read_text_congr (fun m n => ?_) scope policy report
  rw [gist_number rfl m n, place.gist_of_unbroken comment unbroken, content_hash starts,
    place.lines_behind (by decide), gist_cons, strip_semicolon place.blank_indent]

end Place

/-- What a block comment in front of the content of a line does to the reading of the text. -/
structure CommentedIn (place : Place) (comment : BlockComment) : Prop where
  transparent : ('\n' ∈ comment.body ∨
      ∀ tags ∈ blockComments, ¬tags.1 <+: Text.trim place.line) → ∀ scope policy report,
    read scope policy (place.text comment.chars) = .ok report ↔
      read scope policy (place.text []) = .ok report
  refused : '\n' ∉ comment.body → ['/', '*'] <+: Text.trim place.line → ∀ scope policy report,
    read scope policy (place.text comment.chars) ≠ .ok report
  unclosed : '\n' ∉ comment.body → ['#', '|'] <+: Text.trim place.line →
    ∀ scope policy report, read scope policy (place.text comment.chars) = .ok report ↔
      read scope policy (place.text [';']) = .ok report

/-- A block comment may be put on any line that is not blank and does not begin in a comment, in
front of what the line has to say. The text reads as before unless the comment ends on this line and
the line goes on with a block comment. -/
theorem comment_in_front (comment : BlockComment) :
    (∀ {text : String} {before after : List (List Char)} {raw : List Char},
      lines text.toList = before ++ raw :: after → openAfter none 1 before = none →
        Text.trim raw ≠ [] → ∃ place : Place, place.before = before ∧
          place.indent ++ place.line = raw ∧ place.text [] = text) ∧
    ∀ place : Place, CommentedIn place comment :=
  ⟨Place.exists_of_lines, fun place =>
    ⟨place.transparent comment, place.refused comment, place.unclosed comment⟩⟩

/-- A rule that is commented out, with a line comment in front of the end. -/
def retired : Place where
  before := []
  indent := []
  line := "#|".toList
  tail := "\ncondition: (eq 1 1)\naction: (act Debug.Log 'x')\n; |#\n".toList
  wholeLines := by simp
  outside := rfl
  blanks := by simp
  visible := by decide
  oneLine := by decide
  ends := .inr ⟨_, rfl⟩

def remark : BlockComment where
  opening := ['/', '*']
  close := ['*', '/']
  body := " note ".toList
  listed := by decide
  ends := by
    unfold EndsFirst
    decide

theorem remark_commentedIn :
    ∃ place : Place, place.text [] = retired.text [] ∧ CommentedIn place remark := by
  have split : lines (retired.text []).toList = [] ++ "#|".toList ::
      ["condition: (eq 1 1)".toList, "action: (act Debug.Log 'x')".toList, "; |#".toList] := by
    decide +kernel
  obtain ⟨place, _, _, same⟩ := (comment_in_front remark).1 split rfl (by decide)
  exact ⟨place, same, (comment_in_front remark).2 place⟩

/-- A remark in front of it brings the rule back. -/
theorem not_always_transparent : ¬∀ (place : Place) (comment : BlockComment) (scope : Option Scope)
    (policy : ImportPolicy) (report : ImportReport),
    read scope policy (place.text comment.chars) = .ok report ↔
      read scope policy (place.text []) = .ok report := by
  intro transparent
  have nothing : read none .strict (retired.text []) = .ok ⟨[], 0⟩ := by decide +kernel
  have restored : read none .strict (retired.text remark.chars) =
      .ok ⟨[{ condition := "(eq 1 1)", action := "(act Debug.Log 'x')" }], 0⟩ := by decide +kernel
  rw [(transparent retired remark none .strict ⟨[], 0⟩).2 nothing] at restored
  exact absurd restored (by decide)

end RuleText

end SignalRules
