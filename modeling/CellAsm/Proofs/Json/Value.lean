-- SUMMARY: JSON values that are written are read back, and strings that are read are UTF-8.
import CellAsm.Proofs.Json.Lexeme

/-!
# Written JSON values

The reader keeps a stack of unfinished arrays and objects. Reading the text of a
value leads to the same place as handing the value over at once, for every stack
it is read on. That is shown for the parts of an array or object first, and for
the whole by induction on the value.
-/
namespace CellAsm.Json

/-! ## Blanks and punctuation -/

/-- Blanks only. -/
def IsGap (t : Text) : Prop := ∃ cs : List Char, t = Text.ofChars cs ∧ ∀ c ∈ cs, isSpace c

theorem IsGap.lexeme? {gap : Text} (h : IsGap gap) (rest : Text) :
    lexeme? (gap ++ rest).chars = lexeme? rest.chars := by
  obtain ⟨cs, rfl, hspace⟩ := h
  rw [Text.chars_ofChars_append]
  unfold Json.lexeme?
  rw [List.dropWhile_append_of_pos hspace]

theorem endsNumber_cons {c : Char} (h : c.isDigit = false ∧ c ≠ '.' ∧ c ≠ 'e' ∧ c ≠ 'E')
    (rest : List Char) : EndsNumber (c :: rest) := by
  intro d tail heq
  cases heq
  exact h

theorem IsGap.endsNumber {gap rest : Text} (h : IsGap gap) (hrest : EndsNumber rest.chars) :
    EndsNumber (gap ++ rest).chars := by
  obtain ⟨cs, rfl, hspace⟩ := h
  rw [Text.chars_ofChars_append]
  cases cs with
  | nil => exact hrest
  | cons c cs =>
    have hc : isSpace c := hspace c List.mem_cons_self
    simp only [isSpace, Bool.or_eq_true, beq_iff_eq] at hc
    rcases hc with ((rfl | rfl) | rfl) | rfl <;> exact endsNumber_cons (by decide) _

/-- Only blanks set the parts of a value apart. -/
structure Style.Blank (style : Style) : Prop where
  colon : ∃ gap, IsGap gap ∧ style.colon = Text.ofString ":" ++ gap
  newline : ∀ depth, IsGap (style.newline depth)

theorem Style.blank_indented : Style.indented.Blank where
  colon := ⟨Text.ofChar ' ', ⟨[' '], rfl, by simp [isSpace]⟩, rfl⟩
  newline depth := by
    refine ⟨'\n' :: List.replicate depth '\t', ?_, ?_⟩
    · have htabs : Text.ofChars (List.replicate depth '\t') = List.replicate depth '\t'.toUInt8 := by
        induction depth with
        | zero => rfl
        | succ depth ih =>
          rw [List.replicate_succ, Text.ofChars_cons, ih]
          rfl
      rw [Text.ofChars_cons, htabs]
      rfl
    · simp [isSpace]

/-! ## Reading on -/

/-- What the reader gives when it has come this far. -/
def resume : Progress → List Char → Option (Value × List Char)
  | .done v, rest => some (v, rest)
  | .more stack expecting, rest => readFrom? stack expecting rest

theorem readFrom?_eq (stack : List Frame) (e : Expecting) (cs : List Char) :
    readFrom? stack e cs =
      (lexeme? cs).bind fun r => (step? stack e r.1).bind fun p => resume p r.2 := by
  rw [readFrom?]
  split
  · rename_i hlexeme
    rw [hlexeme]
    rfl
  · rename_i x rest hlexeme
    rw [hlexeme, Option.bind_some]
    split
    · rename_i hstep
      rw [hstep]
      rfl
    · rename_i hstep
      rw [hstep]
      rfl
    · rename_i hstep
      rw [hstep]
      rfl

theorem readFrom?_of_lexeme? {cs rest : List Char} {x : Lexeme} (h : lexeme? cs = some (x, rest))
    {stack : List Frame} {e : Expecting} {p : Progress} (hstep : step? stack e x = some p) :
    readFrom? stack e cs = resume p rest := by
  rw [readFrom?_eq, h, Option.bind_some, hstep, Option.bind_some]

theorem IsGap.readFrom? {gap : Text} (h : IsGap gap) (stack : List Frame) (e : Expecting)
    (rest : Text) : readFrom? stack e (gap ++ rest).chars = readFrom? stack e rest.chars := by
  rw [readFrom?_eq, h.lexeme?, ← readFrom?_eq]

/-- How a lexeme without contents is written. -/
def Lexeme.mark? : Lexeme → Option String
  | .leftBrace => some "\x7b"
  | .rightBrace => some "\x7d"
  | .leftBracket => some "["
  | .rightBracket => some "]"
  | .colon => some ":"
  | .comma => some ","
  | .scalar .null => some "null"
  | .scalar (.bool true) => some "true"
  | .scalar (.bool false) => some "false"
  | _ => none

theorem lexeme?_mark {x : Lexeme} {s : String} (h : x.mark? = some s) (rest : Text) :
    lexeme? (Text.ofString s ++ rest).chars = some (x, rest.chars) := by
  unfold Lexeme.mark? at h
  split at h
  case h_10 => cases h
  all_goals
    cases h
    rw [Text.ofString, Text.chars_ofChars_append]
    exact lexeme?_of_not_isSpace (by decide) _

theorem readFrom?_mark {x : Lexeme} {s : String} (h : x.mark? = some s) {stack : List Frame}
    {e : Expecting} {p : Progress} (hstep : step? stack e x = some p) (rest : Text) :
    readFrom? stack e (Text.ofString s ++ rest).chars = resume p rest.chars :=
  readFrom?_of_lexeme? (lexeme?_mark h rest) hstep

theorem endsNumber_mark {s : String} (h : s = "," ∨ s = "]" ∨ s = "\x7d" ∨ s = "\n") (rest : Text) :
    EndsNumber (Text.ofString s ++ rest).chars := by
  rw [Text.ofString, Text.chars_ofChars_append]
  rcases h with rfl | rfl | rfl | rfl <;> exact endsNumber_cons (by decide) _

/-- A value may start here. -/
def Expecting.AtValue (e : Expecting) : Prop := e = .value ∨ e = .itemOrEnd

theorem step?_of_atValue {e : Expecting} (he : e.AtValue) {x : Lexeme} (hx : x ≠ .rightBracket)
    (stack : List Frame) : step? stack e x = startValue? stack x := by
  rcases he with rfl | rfl
  · rfl
  · cases x with
    | rightBracket => exact absurd rfl hx
    | _ => rfl

/-- The start of an array or object that is not nested too deep. -/
theorem readFrom?_enter {x : Lexeme} {s : String} (h : x.mark? = some s) (hx : x ≠ .rightBracket)
    {f : Frame} {inside : Expecting} (hstart : ∀ stack, startValue? stack x = enter f stack inside)
    {e : Expecting} (he : e.AtValue) {stack : List Frame} (hdepth : stack.length < maxDepth)
    (rest : Text) : readFrom? stack e (Text.ofString s ++ rest).chars =
      readFrom? (f :: stack) inside rest.chars := by
  refine readFrom?_mark (p := .more (f :: stack) inside) h ?_ rest
  rw [step?_of_atValue he hx, hstart]
  exact if_pos hdepth

/-! ## Reading back -/

/-- The text of a value that nests at most `n` arrays and objects leads the
reader to where the value itself would. -/
def Reads (style : Style) (n : Nat) (v : Value) : Prop :=
  ∀ (depth : Nat) (stack : List Frame) (e : Expecting) (rest : Text), e.AtValue →
    stack.length + n ≤ maxDepth → EndsNumber rest.chars →
    readFrom? stack e (v.render style depth ++ rest).chars = resume (deliver v stack) rest.chars

theorem reads_of_lexeme? {style : Style} {n : Nat} {v : Value} {x : Lexeme}
    (hx : x ≠ .rightBracket) (hstart : ∀ stack, startValue? stack x = some (deliver v stack))
    (h : ∀ (depth : Nat) (rest : Text), EndsNumber rest.chars →
      lexeme? (v.render style depth ++ rest).chars = some (x, rest.chars)) : Reads style n v := by
  intro depth stack e rest he _ hrest
  exact readFrom?_of_lexeme? (h depth rest hrest) ((step?_of_atValue he hx stack).trans (hstart stack))

section Parts

variable {style : Style} (hstyle : style.Blank) {n : Nat} {stack : List Frame}
  (hdepth : stack.length + 1 + n ≤ maxDepth)

include hstyle

theorem endsNumber_renderItems (inner outer : Nat) (items : List Value) (rest : Text) :
    EndsNumber (renderItems style inner items ++
      (style.newline outer ++ (Text.ofString "]" ++ rest))).chars := by
  cases items with
  | nil => exact (hstyle.newline outer).endsNumber (endsNumber_mark (by decide) rest)
  | cons v items =>
    simp only [renderItems, Text.join, List.flatten_cons, List.append_assoc]
    exact endsNumber_mark (by decide) _

include hdepth

/-- The items of an array after the first, and its end. -/
theorem readFrom?_renderItems (inner outer : Nat) {items : List Value}
    (h : ∀ v ∈ items, Reads style n v) (before : List Value) (rest : Text) :
    readFrom? (.array before :: stack) .commaOrEnd (renderItems style inner items ++
      (style.newline outer ++ (Text.ofString "]" ++ rest))).chars =
      resume (deliver (.array (before.reverse ++ items)) stack) rest.chars := by
  -- The frame holds the items read so far in reverse, and each item adds one to them.
  induction items generalizing before with
  | nil =>
    rw [renderItems, List.nil_append, (hstyle.newline outer).readFrom?, List.append_nil]
    exact readFrom?_mark (x := .rightBracket) rfl rfl rest
  | cons v items ih =>
    rw [List.forall_mem_cons] at h
    have hends := endsNumber_renderItems hstyle inner outer items rest
    simp only [renderItems, Text.join, List.flatten_cons, List.flatten_nil, List.append_nil,
      List.append_assoc]
    rw [readFrom?_mark (x := .comma) rfl rfl, resume, (hstyle.newline inner).readFrom?,
      h.1 inner (.array before :: stack) .value _ (.inl rfl) hdepth hends, deliver, resume,
      ih h.2, List.reverse_cons, List.append_assoc, List.singleton_append]

omit hdepth in
theorem endsNumber_renderMembers (inner outer : Nat) (members : List (Text × Value)) (rest : Text) :
    EndsNumber (renderMembers style inner members ++
      (style.newline outer ++ (Text.ofString "\x7d" ++ rest))).chars := by
  cases members with
  | nil => exact (hstyle.newline outer).endsNumber (endsNumber_mark (by decide) rest)
  | cons m members =>
    simp only [renderMembers, Text.join, List.flatten_cons, List.append_assoc]
    exact endsNumber_mark (by decide) _

/-- A key and its value. -/
theorem readFrom?_renderMember (inner : Nat) {key last : Text} {v : Value} (hkey : key.IsUtf8)
    (h : Reads style n v) {e : Expecting} (he : e = .key ∨ e = .keyOrEnd)
    (before : List (Text × Value)) {rest : Text} (hrest : EndsNumber rest.chars) :
    readFrom? (.object before last :: stack) e
      (renderString key ++ (style.colon ++ (v.render style inner ++ rest))).chars =
      readFrom? (.object ((key, v) :: before) key :: stack) .commaOrEnd rest.chars := by
  obtain ⟨gap, hgap, hcolon⟩ := hstyle.colon
  have hstep : step? (.object before last :: stack) e (.string key) =
      some (.more (.object before key :: stack) .colon) := by
    rcases he with rfl | rfl <;> rfl
  rw [readFrom?_of_lexeme? (lexeme?_renderString hkey _) hstep, resume, hcolon, List.append_assoc,
    readFrom?_mark (x := .colon) rfl rfl, resume, hgap.readFrom?,
    h inner (.object before key :: stack) .value _ (.inl rfl) hdepth hrest, deliver, resume]

/-- The members of an object after the first, and its end. -/
theorem readFrom?_renderMembers (inner outer : Nat) {members : List (Text × Value)}
    (hkeys : ∀ m ∈ members, m.1.IsUtf8) (h : ∀ m ∈ members, Reads style n m.2)
    (before : List (Text × Value)) (last : Text) (rest : Text) :
    readFrom? (.object before last :: stack) .commaOrEnd (renderMembers style inner members ++
      (style.newline outer ++ (Text.ofString "\x7d" ++ rest))).chars =
      resume (deliver (.object (before.reverse ++ members)) stack) rest.chars := by
  induction members generalizing before last with
  | nil =>
    rw [renderMembers, List.nil_append, (hstyle.newline outer).readFrom?, List.append_nil]
    exact readFrom?_mark (x := .rightBrace) rfl rfl rest
  | cons m members ih =>
    rw [List.forall_mem_cons] at hkeys h
    have hends := endsNumber_renderMembers hstyle inner outer members rest
    simp only [renderMembers, Text.join, List.flatten_cons, List.flatten_nil, List.append_nil,
      List.append_assoc]
    rw [readFrom?_mark (x := .comma) rfl rfl, resume, (hstyle.newline inner).readFrom?,
      readFrom?_renderMember hstyle hdepth inner hkeys.1 h.1 (.inl rfl) before hends,
      ih hkeys.2 h.2, List.reverse_cons, List.append_assoc, List.singleton_append]

end Parts

section Whole

variable {style : Style} (hstyle : style.Blank) {n : Nat}

include hstyle

theorem reads_array {items : List Value} (h : ∀ v ∈ items, Reads style n v) :
    Reads style (n + 1) (.array items) := by
  intro depth stack e rest he hdepth _
  have hopen := readFrom?_enter (x := .leftBracket) rfl (fun h => by cases h) (fun _ => rfl) he
    (show stack.length < maxDepth by omega)
  cases items with
  | nil =>
    have htext : Value.render style depth (.array []) ++ rest =
        Text.ofString "[" ++ (Text.ofString "]" ++ rest) := by
      rw [Value.render]
      rfl
    rw [htext, hopen]
    exact readFrom?_mark (x := .rightBracket) rfl rfl rest
  | cons v items =>
    rw [List.forall_mem_cons] at h
    have hinner : stack.length + 1 + n ≤ maxDepth := by omega
    have hends := endsNumber_renderItems hstyle (depth + 1) depth items rest
    simp only [Value.render, Text.join, List.flatten_cons, List.flatten_nil, List.append_nil,
      List.append_assoc]
    rw [hopen, (hstyle.newline (depth + 1)).readFrom?,
      h.1 (depth + 1) (.array [] :: stack) .itemOrEnd _ (.inr rfl) hinner hends, deliver, resume,
      readFrom?_renderItems hstyle hinner (depth + 1) depth h.2]
    rfl

theorem reads_object {members : List (Text × Value)} (hkeys : ∀ m ∈ members, m.1.IsUtf8)
    (h : ∀ m ∈ members, Reads style n m.2) : Reads style (n + 1) (.object members) := by
  intro depth stack e rest he hdepth _
  have hopen := readFrom?_enter (x := .leftBrace) rfl (fun h => by cases h) (fun _ => rfl) he
    (show stack.length < maxDepth by omega)
  cases members with
  | nil =>
    have htext : Value.render style depth (.object []) ++ rest =
        Text.ofString "\x7b" ++ (Text.ofString "\x7d" ++ rest) := by
      rw [Value.render]
      rfl
    rw [htext, hopen]
    exact readFrom?_mark (x := .rightBrace) rfl rfl rest
  | cons m members =>
    rw [List.forall_mem_cons] at hkeys h
    have hinner : stack.length + 1 + n ≤ maxDepth := by omega
    have hends := endsNumber_renderMembers hstyle (depth + 1) depth members rest
    simp only [Value.render, Text.join, List.flatten_cons, List.flatten_nil, List.append_nil,
      List.append_assoc]
    rw [hopen, (hstyle.newline (depth + 1)).readFrom?,
      readFrom?_renderMember hstyle hinner (depth + 1) hkeys.1 h.1 (.inr rfl) [] hends,
      readFrom?_renderMembers hstyle hinner (depth + 1) depth hkeys.2 h.2]
    rfl

end Whole

/-! ## Plain values -/

/-- A value of UTF-8 strings and whole numbers that nests at most `n` arrays and
objects. -/
inductive Value.Plain : Nat → Value → Prop
  | null {n : Nat} : Plain n .null
  | bool {n : Nat} (b : Bool) : Plain n (.bool b)
  | ofInt {n : Nat} (k : Int) : Plain n (.ofInt k)
  | string {n : Nat} {t : Text} (h : t.IsUtf8) : Plain n (.string t)
  | array {n : Nat} {items : List Value} (h : ∀ v ∈ items, Plain n v) : Plain (n + 1) (.array items)
  | object {n : Nat} {members : List (Text × Value)} (hkeys : ∀ m ∈ members, m.1.IsUtf8)
      (h : ∀ m ∈ members, Plain n m.2) : Plain (n + 1) (.object members)

theorem Value.Plain.ofMembers {n : Nat} {members : List (Text × Value)}
    (h : ∀ m ∈ members, m.1.IsUtf8 ∧ m.2.Plain n) : Value.Plain (n + 1) (.object members) :=
  .object (fun m hm => (h m hm).1) fun m hm => (h m hm).2

/-- A plain value is read back. -/
theorem Value.Plain.reads {style : Style} (hstyle : style.Blank) {n : Nat} {v : Value}
    (h : v.Plain n) : Reads style n v := by
  induction h with
  | null =>
    refine reads_of_lexeme? (x := .scalar .null) (fun h => by cases h) (fun _ => rfl) ?_
    intro depth rest _
    rw [Value.render]
    exact lexeme?_mark rfl rest
  | bool b =>
    refine reads_of_lexeme? (x := .scalar (.bool b)) (fun h => by cases h) (fun _ => rfl) ?_
    intro depth rest _
    cases b with
    | false =>
      rw [Value.render]
      exact lexeme?_mark rfl rest
    | true =>
      rw [Value.render]
      exact lexeme?_mark rfl rest
  | ofInt k =>
    refine reads_of_lexeme? (x := .scalar (.ofInt k)) (fun h => by cases h) (fun _ => rfl) ?_
    intro depth rest hrest
    rw [Value.ofInt, Value.render]
    exact lexeme?_decimal k hrest
  | @string _ t h =>
    refine reads_of_lexeme? (x := .string t) (fun h => by cases h) (fun _ => rfl) ?_
    intro depth rest _
    rw [Value.render]
    exact lexeme?_renderString h rest
  | array _ ih => exact reads_array hstyle ih
  | object hkeys _ ih => exact reads_object hstyle hkeys ih

theorem Value.Plain.first?_render {style : Style} (hstyle : style.Blank) {n : Nat} {v : Value}
    (h : v.Plain n) (hn : n ≤ maxDepth) {rest : Text} (hrest : EndsNumber rest.chars) :
    Value.first? (v.render style 0 ++ rest) = some v := by
  have hread := h.reads hstyle 0 [] .value rest (.inl rfl) (by simpa using hn) hrest
  rw [Value.first?, hread]
  rfl

/-! ## Strings that were read -/

/-- Every string in the value is UTF-8. -/
inductive Value.Decoded : Value → Prop
  | null : Decoded .null
  | bool (b : Bool) : Decoded (.bool b)
  | number (literal : Text) : Decoded (.number literal)
  | string {t : Text} (h : t.IsUtf8) : Decoded (.string t)
  | array {items : List Value} (h : ∀ v ∈ items, Decoded v) : Decoded (.array items)
  | object {members : List (Text × Value)} (h : ∀ m ∈ members, Decoded m.2) :
      Decoded (.object members)

def Lexeme.Decoded : Lexeme → Prop
  | .string t => t.IsUtf8
  | .scalar v => v.Decoded
  | _ => True

def Frame.Decoded : Frame → Prop
  | .array items => ∀ v ∈ items, v.Decoded
  | .object members _ => ∀ m ∈ members, m.2.Decoded

def Progress.Decoded : Progress → Prop
  | .done v => v.Decoded
  | .more stack _ => ∀ f ∈ stack, f.Decoded

theorem lexeme?_decoded {cs rest : List Char} {x : Lexeme} (h : lexeme? cs = some (x, rest)) :
    x.Decoded := by
  unfold lexeme? at h
  split at h
  · cases h
  · unfold lexemeFrom? at h
    split at h
    case h_7 =>
      obtain ⟨_, _, heq⟩ := Option.map_eq_some_iff.1 h
      cases heq
      exact Text.isUtf8_ofChars _
    case h_8 =>
      cases h
      exact .null
    case h_9 | h_10 =>
      cases h
      exact .bool _
    case h_11 =>
      obtain ⟨_, _, heq⟩ := Option.map_eq_some_iff.1 h
      cases heq
      exact .number _
    all_goals
      cases h
      trivial

theorem deliver_decoded {v : Value} (hv : v.Decoded) {stack : List Frame}
    (h : ∀ f ∈ stack, f.Decoded) : (deliver v stack).Decoded := by
  cases stack with
  | nil => exact hv
  | cons f stack =>
    rw [List.forall_mem_cons] at h
    cases f with
    | array items => exact List.forall_mem_cons.2 ⟨List.forall_mem_cons.2 ⟨hv, h.1⟩, h.2⟩
    | object members key => exact List.forall_mem_cons.2 ⟨List.forall_mem_cons.2 ⟨hv, h.1⟩, h.2⟩

theorem startValue?_decoded {stack : List Frame} (h : ∀ f ∈ stack, f.Decoded) {x : Lexeme}
    (hx : x.Decoded) {p : Progress} (hstep : startValue? stack x = some p) : p.Decoded := by
  unfold startValue? enter at hstep
  split at hstep
  · split at hstep
    · cases hstep
      exact List.forall_mem_cons.2 ⟨by simp [Frame.Decoded], h⟩
    · cases hstep
  · split at hstep
    · cases hstep
      exact List.forall_mem_cons.2 ⟨by simp [Frame.Decoded], h⟩
    · cases hstep
  · cases hstep
    exact deliver_decoded (.string hx) h
  · cases hstep
    exact deliver_decoded hx h
  · cases hstep

theorem step?_decoded {stack : List Frame} (h : ∀ f ∈ stack, f.Decoded) {e : Expecting} {x : Lexeme}
    (hx : x.Decoded) {p : Progress} (hstep : step? stack e x = some p) : p.Decoded := by
  have harray {items : List Value} {stack : List Frame} (h : ∀ f ∈ .array items :: stack, f.Decoded) :
      (deliver (.array items.reverse) stack).Decoded := by
    rw [List.forall_mem_cons] at h
    exact deliver_decoded (.array fun v hv => h.1 v (List.mem_reverse.1 hv)) h.2
  have hobject {members : List (Text × Value)} {key : Text} {stack : List Frame}
      (h : ∀ f ∈ .object members key :: stack, f.Decoded) :
      (deliver (.object members.reverse) stack).Decoded := by
    rw [List.forall_mem_cons] at h
    exact deliver_decoded (.object fun m hm => h.1 m (List.mem_reverse.1 hm)) h.2
  have hkey {members : List (Text × Value)} {last key : Text} {stack : List Frame}
      (h : ∀ f ∈ .object members last :: stack, f.Decoded) :
      (Progress.more (.object members key :: stack) .colon).Decoded := by
    rw [List.forall_mem_cons] at h
    exact List.forall_mem_cons.2 ⟨h.1, h.2⟩
  unfold step? at hstep
  split at hstep
  · exact startValue?_decoded h hx hstep
  · split at hstep
    · cases hstep
      exact harray h
    · cases hstep
  · exact startValue?_decoded h hx hstep
  · split at hstep
    · cases hstep
      exact hobject h
    · cases hstep
  · split at hstep
    · cases hstep
      exact hkey h
    · cases hstep
  · split at hstep
    · cases hstep
      exact hkey h
    · cases hstep
  · cases hstep
    exact h
  · split at hstep
    · cases hstep
      exact h
    · cases hstep
      exact h
    · cases hstep
  · split at hstep
    · cases hstep
      exact harray h
    · cases hstep
  · split at hstep
    · cases hstep
      exact hobject h
    · cases hstep
  · cases hstep

/-- A value that was read has no strings but UTF-8 ones. -/
theorem readFrom?_decoded {stack : List Frame} (h : ∀ f ∈ stack, f.Decoded) {e : Expecting}
    {cs rest : List Char} {v : Value} (hread : readFrom? stack e cs = some (v, rest)) :
    v.Decoded := by
  fun_induction readFrom? stack e cs with
  | case1 => cases hread
  | case2 => cases hread
  | case3 stack e cs x rest' hlexeme v' hstep =>
    cases hread
    exact step?_decoded h (lexeme?_decoded hlexeme) hstep
  | case4 stack e cs x rest' hlexeme stack' e' hstep ih =>
    exact ih (step?_decoded h (lexeme?_decoded hlexeme) hstep) hread

theorem Value.first?_decoded {t : Text} {v : Value} (h : Value.first? t = some v) : v.Decoded := by
  obtain ⟨⟨v', rest⟩, hread, rfl⟩ := Option.map_eq_some_iff.1 h
  exact readFrom?_decoded (by simp) hread

end CellAsm.Json
