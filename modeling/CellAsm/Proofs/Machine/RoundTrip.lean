-- SUMMARY: A machine that was loaded is saved, and loads again as the same machine.
import CellAsm.Proofs.Machine.Described

/-!
# Saving and loading

Each part of a description that was read can be written, and reading what was
written, on top of a blank part, gives the part back without an error. The parts
are put together as readers are: members of an object one after the other, items
of a list each on top of a blank one.
-/
namespace CellAsm

open Json (Value)

/-! ## Names -/

theorem Text.foldsTo_ofString (key name : String) :
    (Text.ofString key).foldsTo name = (key.toList.map foldCase == name.toList.map foldCase) := by
  rw [foldsTo, ofString, chars_ofChars]

theorem Relativity.exists_written {r : Relativity} (h : r.name?.isSome) :
    ∃ t, r.written = .ok t ∧ t.IsUtf8 ∧ Relativity.ofName? t = some r := by
  cases r with
  | unnamed code => cases h
  | _ => exact ⟨_, rfl, Text.isUtf8_ofString _, by decide +kernel⟩

theorem Presence.exists_written {p : Presence} (h : p.name?.isSome) :
    ∃ t, p.written = .ok t ∧ t.IsUtf8 ∧ Presence.ofName? t = some p := by
  cases p with
  | unnamed code => cases h
  | _ => exact ⟨_, rfl, Text.isUtf8_ofString _, by decide +kernel⟩

namespace Machine

/-! ## Numbers -/

theorem wholeNumber?_decimal (k : Int) : wholeNumber? (Text.decimal k) = some k := by
  cases k with
  | ofNat n =>
    obtain ⟨b, bs, hbs⟩ := List.exists_cons_of_ne_nil (Text.numeral_ne_nil 10 n)
    have hdigit : isAsciiDigit b := by
      refine Text.isAsciiDigit_of_mem_numeral (n := n) ?_
      rw [hbs]
      exact List.mem_cons_self
    have hread := Text.ofDigits?_numeral n
    rw [Text.decimal]
    rw [hbs] at hread ⊢
    unfold wholeNumber?
    split
    · rename_i heq
      cases heq
      exact absurd hdigit (by decide)
    · rw [hread]
      rfl
  | negSucc n =>
    have hliteral : Text.decimal (.negSucc n) = 0x2D :: Text.numeral 10 (n + 1) := rfl
    simp only [hliteral, wholeNumber?, Text.ofDigits?_numeral]
    rfl

theorem readInt_ofInt {k : Int} (h : IsInt64 k) (old : Int) : readInt old (.ofInt k) = pure k := by
  simp only [Value.ofInt, readInt, wholeNumber?_decimal]
  exact if_pos h

theorem readWord_ofInt (w old : UInt64) : readWord old (.ofInt w.toNat) = pure w := by
  have hliteral : Text.decimal w.toNat = Text.numeral 10 w.toNat := rfl
  simp only [Value.ofInt, readWord, hliteral, Text.ofDigits?_numeral]
  rw [if_pos w.toNat_lt, UInt64.ofNat_toNat]

/-! ## Objects and lists -/

theorem readObject_nil {α : Type} (readMember : α → Text → Value → Option (Reading α)) (a : α) :
    readObject readMember a (.object []) = pure a := rfl

theorem readObject_cons {α : Type} {readMember : α → Text → Value → Option (Reading α)} {a a' : α}
    {key : Text} {v : Value} (h : readMember a key v = some (pure a'))
    (members : List (Text × Value)) :
    readObject readMember a (.object ((key, v) :: members)) =
      readObject readMember a' (.object members) := by
  simp only [readObject, List.foldlM_cons, h, pure_bind]

theorem readItems_of_forall₂ {α β : Type} {blank : α} {readItem : α → Value → Reading α}
    {draft : β → α} {l : List β} {vs : List Value}
    (h : List.Forall₂ (fun b v => readItem blank v = pure (draft b)) l vs) :
    readItems blank readItem [] vs = pure (l.map draft) := by
  induction h with
  | nil => rfl
  | cons hitem _ ih => simp only [readItems, hitem, ih, pure_bind, List.map_cons]

/-- A list of parts that are read back on their own. -/
theorem readList_of_forall₂ {α β : Type} {blank : α} {readItem : α → Value → Reading α}
    {draft : β → α} {l : List β} {vs : List Value}
    (h : List.Forall₂ (fun b v => readItem blank v = pure (draft b)) l vs) :
    readList blank readItem none (.array vs) = pure (some ⟨l.map draft, []⟩) := by
  cases h with
  | nil => rfl
  | cons hitem hrest =>
    have hitems := readItems_of_forall₂ (.cons hitem hrest)
    simp only [readList, Option.getD_none, List.append_nil, hitems, pure_bind, List.drop_nil]

/-- A part is written as a plain value that is read as `a`, without an error. -/
def ReadsBack {α : Type} (n : Nat) (written : Except NameError Value) (read : Value → Reading α)
    (a : α) : Prop :=
  ∃ v, written = .ok v ∧ v.Plain n ∧ read v = pure a

theorem readsBack_optionalList {α β : Type} {n : Nat} {toJson : β → Except NameError Value}
    {blank : α} {readItem : α → Value → Reading α} {draft : β → α} {list : Option (List β)}
    (h : ∀ b ∈ list.getD [], ReadsBack n (toJson b) (readItem blank) (draft b)) :
    ReadsBack (n + 1) (optionalList toJson list) (readList blank readItem none)
      (list.map fun l => ⟨l.map draft, []⟩) := by
  cases list with
  | none => exact ⟨.null, rfl, .null, rfl⟩
  | some l =>
    rw [Option.getD_some] at h
    have hvalues : ∃ vs, l.mapM toJson = .ok vs ∧ (∀ v ∈ vs, v.Plain n) ∧
        List.Forall₂ (fun b v => readItem blank v = pure (draft b)) l vs := by
      induction l with
      | nil => exact ⟨[], rfl, by simp, .nil⟩
      | cons b l ih =>
        rw [List.forall_mem_cons] at h
        obtain ⟨v, hwritten, hplain, hread⟩ := h.1
        obtain ⟨vs, hwrittens, hplains, hreads⟩ := ih h.2
        refine ⟨v :: vs, ?_, List.forall_mem_cons.2 ⟨hplain, hplains⟩, .cons hread hreads⟩
        simp only [List.mapM_cons, hwritten, hwrittens, ok_bind]
        rfl
    obtain ⟨vs, hwritten, hplain, hread⟩ := hvalues
    refine ⟨.array vs, ?_, .array hplain, readList_of_forall₂ hread⟩
    simp only [optionalList, hwritten, ok_bind]
    rfl

/-! ## Drafts of finished parts -/

/-- A list as it stands after it was read once; an empty one is not written. -/
def Slots.ofList? {α : Type} (l : List α) : Option (Slots α) :=
  if l.isEmpty then none else some ⟨l, []⟩

theorem Slots.items_ofList? {α : Type} (l : List α) :
    ((Slots.ofList? l).map Slots.items).getD [] = l := by
  cases l <;> rfl

def FieldDraft.ofField (f : Field) : FieldDraft where
  field := { f with values := [] }
  values := Slots.ofList? f.values

def InstructionDraft.ofInstruction (s : Instruction) : InstructionDraft where
  name := s.name
  opcode := s.opcode
  fields := s.fieldList.map fun l => ⟨l.map FieldDraft.ofField, []⟩

def Draft.ofMachine (m : Machine) : Draft where
  name := m.name
  cellSize := m.cellSize
  instructions := m.instructionList.map fun l => ⟨l.map InstructionDraft.ofInstruction, []⟩
  equs := Slots.ofList? m.equs
  punctuation := m.punctuation

@[simp] theorem FieldDraft.toField_ofField (f : Field) : (FieldDraft.ofField f).toField = f := by
  simp only [toField, ofField, Slots.items_ofList?]

@[simp] theorem InstructionDraft.toInstruction_ofInstruction (s : Instruction) :
    (InstructionDraft.ofInstruction s).toInstruction = s := by
  simp [toInstruction, ofInstruction, Function.comp_def]

@[simp] theorem Draft.toMachine_ofMachine (m : Machine) : (Draft.ofMachine m).toMachine = m := by
  simp [toMachine, ofMachine, Slots.items_ofList?, Function.comp_def]

/-! ## Lists that are left out when empty -/

theorem plain_listMember {α : Type} {n : Nat} {toJson : α → Value} {l : List α}
    (h : ∀ a ∈ l, (toJson a).Plain n) (key : String) :
    ∀ m ∈ listMember key toJson l, m.1.IsUtf8 ∧ m.2.Plain (n + 1) := by
  unfold listMember
  split
  · simp
  · simp only [List.forall_mem_singleton]
    exact ⟨Text.isUtf8_ofString key, .array (List.forall_mem_map.2 h)⟩

theorem readObject_listMember {α β : Type} {readMember : β → Text → Value → Option (Reading β)}
    {b : β} {blank : α} {readItem : α → Value → Reading α} {put : Option (Slots α) → β} {key : String}
    {toJson : α → Value} {l : List α}
    (hmember : ∀ v, readMember b (Text.ofString key) v =
      some (do return put (← readList blank readItem none v)))
    (hnone : put none = b) (hitem : ∀ a ∈ l, readItem blank (toJson a) = pure a)
    (members : List (Text × Value)) :
    readObject readMember b (.object (listMember key toJson l ++ members)) =
      readObject readMember (put (Slots.ofList? l)) (.object members) := by
  cases l with
  | nil =>
    have hempty : put (Slots.ofList? []) = b := hnone
    rw [hempty]
    rfl
  | cons a l =>
    have hitems : List.Forall₂ (fun a v => readItem blank v = pure (id a)) (a :: l)
        ((a :: l).map toJson) := by
      rw [List.forall₂_map_right_iff, List.forall₂_same]
      exact hitem
    have hlist := hmember (.array ((a :: l).map toJson))
    rw [readList_of_forall₂ hitems, List.map_id, pure_bind] at hlist
    exact readObject_cons hlist members

end Machine

/-! ## Named values -/

theorem NamedValue.Described.plain {v : NamedValue} (h : v.Described) (n : Nat) :
    v.toJson.Plain (n + 1) := by
  refine .ofMembers ?_
  simp only [List.forall_mem_cons]
  exact ⟨⟨Text.isUtf8_ofString _, .string h.name⟩, ⟨Text.isUtf8_ofString _, .ofInt _⟩, by simp⟩

namespace Machine

theorem readNamedValue_toJson {v : NamedValue} (h : v.Described) :
    readNamedValue {} v.toJson = pure v := by
  have hname (d : NamedValue) (t : Text) :
      readValueMember d (Text.ofString "name") (.string t) = some (pure { d with name := t }) := by
    simp +decide [readValueMember, Text.foldsTo_ofString, readText]
  have hvalue (d : NamedValue) {k : Int} (hk : IsInt64 k) :
      readValueMember d (Text.ofString "value") (.ofInt k) = some (pure { d with value := k }) := by
    simp +decide [readValueMember, Text.foldsTo_ofString, readInt_ofInt hk]
  rw [readNamedValue, NamedValue.toJson, readObject_cons (hname _ _), readObject_cons (hvalue _ h.value),
    readObject_nil]

/-! ## Fields -/

section FieldMembers

variable (d : FieldDraft)

theorem readFieldMember_name (t : Text) : readFieldMember d (Text.ofString "name") (.string t) =
    some (pure { d with field.name := t }) := by
  simp +decide [readFieldMember, Text.foldsTo_ofString, readText]

theorem readFieldMember_bits {k : Int} (hk : IsInt64 k) :
    readFieldMember d (Text.ofString "bits") (.ofInt k) = some (pure { d with field.bits := k }) := by
  simp +decide [readFieldMember, Text.foldsTo_ofString, readInt_ofInt hk]

theorem readFieldMember_relativity {t : Text} {r : Relativity} (hr : Relativity.ofName? t = some r) :
    readFieldMember d (Text.ofString "relativity") (.string t) =
      some (pure { d with field.relativity := r }) := by
  simp +decide [readFieldMember, Text.foldsTo_ofString, readRelativity, hr]

theorem readFieldMember_type {t : Text} {p : Presence} (hp : Presence.ofName? t = some p) :
    readFieldMember d (Text.ofString "type") (.string t) =
      some (pure { d with field.presence := p }) := by
  simp +decide [readFieldMember, Text.foldsTo_ofString, readPresence, hp]

theorem readFieldMember_signed (b : Bool) : readFieldMember d (Text.ofString "signed") (.bool b) =
    some (pure { d with field.signed := b }) := by
  simp +decide [readFieldMember, Text.foldsTo_ofString, readBool]

theorem readFieldMember_values (v : Value) : readFieldMember d (Text.ofString "values") v =
    some (do return { d with values := ← readList {} readNamedValue d.values v }) := by
  simp +decide [readFieldMember, Text.foldsTo_ofString]

end FieldMembers

theorem readsBack_field {f : Field} (h : f.Described) :
    ReadsBack 3 f.toJson (readField {}) (FieldDraft.ofField f) := by
  obtain ⟨relativity, hrelativity, hrelativityUtf8, hrelativityName⟩ :=
    Relativity.exists_written h.relativity
  obtain ⟨presence, hpresence, hpresenceUtf8, hpresenceName⟩ := Presence.exists_written h.presence
  have hwritten : f.toJson = .ok (.object ([(Text.ofString "name", .string f.name),
      (Text.ofString "bits", .ofInt f.bits), (Text.ofString "relativity", .string relativity),
      (Text.ofString "type", .string presence), (Text.ofString "signed", .bool f.signed)] ++
      listMember "values" NamedValue.toJson f.values)) := by
    simp only [Field.toJson, hrelativity, hpresence, ok_bind]
    rfl
  refine ⟨_, hwritten, .ofMembers (List.forall_mem_append.2 ⟨?_, ?_⟩), ?_⟩
  · simp only [List.forall_mem_cons]
    exact ⟨⟨Text.isUtf8_ofString _, .string h.name⟩, ⟨Text.isUtf8_ofString _, .ofInt _⟩,
      ⟨Text.isUtf8_ofString _, .string hrelativityUtf8⟩, ⟨Text.isUtf8_ofString _, .string hpresenceUtf8⟩,
      ⟨Text.isUtf8_ofString _, .bool _⟩, by simp⟩
  · exact plain_listMember (fun v hv => (h.values v hv).plain 0) "values"
  · have hvalues := readObject_listMember (l := f.values)
      (readFieldMember_values ⟨{ f with values := [] }, none⟩) rfl
      (fun v hv => readNamedValue_toJson (h.values v hv)) []
    rw [List.append_nil] at hvalues
    simp only [readField, List.cons_append, List.nil_append]
    rw [readObject_cons (readFieldMember_name _ _), readObject_cons (readFieldMember_bits _ h.bits),
      readObject_cons (readFieldMember_relativity _ hrelativityName),
      readObject_cons (readFieldMember_type _ hpresenceName),
      readObject_cons (readFieldMember_signed _ _)]
    exact hvalues

/-! ## Instructions -/

theorem readsBack_instruction {s : Instruction} (h : s.Described) :
    ReadsBack 5 s.toJson (readInstruction {}) (InstructionDraft.ofInstruction s) := by
  have hname (d : InstructionDraft) (t : Text) :
      readInstructionMember d (Text.ofString "name") (.string t) =
        some (pure { d with name := t }) := by
    simp +decide [readInstructionMember, Text.foldsTo_ofString, readText]
  have hopcode (d : InstructionDraft) (w : UInt64) :
      readInstructionMember d (Text.ofString "opcode") (.ofInt w.toNat) =
        some (pure { d with opcode := w }) := by
    simp +decide [readInstructionMember, Text.foldsTo_ofString, readWord_ofInt]
  have hfields (d : InstructionDraft) (v : Value) :
      readInstructionMember d (Text.ofString "fields") v =
        some (do return { d with fields := ← readList {} readField d.fields v }) := by
    simp +decide [readInstructionMember, Text.foldsTo_ofString]
  obtain ⟨v, hv, hplain, hread⟩ := readsBack_optionalList fun f hf => readsBack_field (h.fields f hf)
  have hwritten : s.toJson = .ok (.object [(Text.ofString "name", .string s.name),
      (Text.ofString "opcode", .ofInt s.opcode.toNat), (Text.ofString "fields", v)]) := by
    simp only [Instruction.toJson, hv, ok_bind]
    rfl
  refine ⟨_, hwritten, .ofMembers ?_, ?_⟩
  · simp only [List.forall_mem_cons]
    exact ⟨⟨Text.isUtf8_ofString _, .string h.name⟩, ⟨Text.isUtf8_ofString _, .ofInt _⟩,
      ⟨Text.isUtf8_ofString _, hplain⟩, by simp⟩
  · have hlist := hfields ⟨s.name, s.opcode, none⟩ v
    rw [hread, pure_bind] at hlist
    rw [readInstruction, readObject_cons (hname _ _), readObject_cons (hopcode _ _),
      readObject_cons hlist, readObject_nil]
    rfl

/-! ## Descriptions -/

section MachineMembers

variable (d : Draft)

theorem readMachineMember_name (t : Text) : readMachineMember d (Text.ofString "name") (.string t) =
    some (pure { d with name := t }) := by
  simp +decide [readMachineMember, Text.foldsTo_ofString, readText]

theorem readMachineMember_cellSize {k : Int} (hk : IsInt64 k) :
    readMachineMember d (Text.ofString "cellSize") (.ofInt k) =
      some (pure { d with cellSize := k }) := by
  simp +decide [readMachineMember, Text.foldsTo_ofString, readInt_ofInt hk]

theorem readMachineMember_instructions (v : Value) :
    readMachineMember d (Text.ofString "instructions") v =
      some (do return { d with instructions := ← readList {} readInstruction d.instructions v }) := by
  simp +decide [readMachineMember, Text.foldsTo_ofString]

theorem readMachineMember_equs (v : Value) : readMachineMember d (Text.ofString "equs") v =
    some (do return { d with equs := ← readList {} readNamedValue d.equs v }) := by
  simp +decide [readMachineMember, Text.foldsTo_ofString]

theorem readMachineMember_punctuation {v : Value} {p : Punctuation} (hp : readPunctuation v = .ok p) :
    readMachineMember d (Text.ofString "punctuation") v =
      some (pure { d with punctuation := some p }) := by
  simp +decide [readMachineMember, Text.foldsTo_ofString, hp]

end MachineMembers

theorem plain_punctuation {g : Char → Role}
    (hg : ∀ c ∈ Punctuation.charset, (g c).name?.isSome) (n : Nat) :
    (Punctuation.ofRoles g).toJson.Plain (n + 1) := by
  refine .ofMembers (List.forall_mem_map.2 fun e he => ⟨⟨[e.1], (List.append_nil _).symm⟩, ?_⟩)
  exact .string (Role.isUtf8_text (Punctuation.named_of_mem_sorted hg e he))

/-- A description with a full punctuation table. -/
theorem readsBack_machine {m : Machine} (h : m.Described) {g : Char → Role}
    (hm : m.punctuation = some (Punctuation.ofRoles g))
    (hg : ∀ c ∈ Punctuation.charset, (g c).name?.isSome) :
    ReadsBack 7 m.toJson (readDescription {}) (Draft.ofMachine m) := by
  obtain ⟨v, hv, hplain, hread⟩ :=
    readsBack_optionalList fun s hs => readsBack_instruction (h.instructions s hs)
  have hwritten : m.toJson = .ok (.object ([(Text.ofString "name", .string m.name),
      (Text.ofString "cellSize", .ofInt m.cellSize), (Text.ofString "instructions", v)] ++
      listMember "equs" NamedValue.toJson m.equs ++
      [(Text.ofString "punctuation", (Punctuation.ofRoles g).toJson)])) := by
    simp only [toJson, hv, hm, ok_bind]
    rfl
  refine ⟨_, hwritten, .ofMembers (List.forall_mem_append.2 ⟨List.forall_mem_append.2 ⟨?_, ?_⟩, ?_⟩), ?_⟩
  · simp only [List.forall_mem_cons]
    exact ⟨⟨Text.isUtf8_ofString _, .string h.name⟩, ⟨Text.isUtf8_ofString _, .ofInt _⟩,
      ⟨Text.isUtf8_ofString _, hplain⟩, by simp⟩
  · exact plain_listMember (fun v hv => (h.equs v hv).plain 4) "equs"
  · rw [List.forall_mem_singleton]
    exact ⟨Text.isUtf8_ofString _, plain_punctuation hg 5⟩
  · have hlist := readMachineMember_instructions ⟨m.name, m.cellSize, none, none, none⟩ v
    rw [hread, pure_bind] at hlist
    have hequs := readObject_listMember (l := m.equs)
      (readMachineMember_equs ⟨m.name, m.cellSize, (Draft.ofMachine m).instructions, none, none⟩) rfl
      (fun v hv => readNamedValue_toJson (h.equs v hv))
      [(Text.ofString "punctuation", (Punctuation.ofRoles g).toJson)]
    simp only [readDescription, List.cons_append, List.nil_append]
    rw [readObject_cons (readMachineMember_name _ _),
      readObject_cons (readMachineMember_cellSize _ h.cellSize), readObject_cons hlist]
    refine hequs.trans ?_
    rw [readObject_cons (readMachineMember_punctuation _ (readPunctuation_toJson hg)), readObject_nil,
      ← hm]
    rfl

/-! ## Loading again -/

theorem validate_punctuation {m : Machine} {p : Punctuation} (hp : m.punctuation = some p)
    (h : m.validate = .ok ()) : p.validate = .ok () := by
  unfold validate at h
  by_cases hcell : m.cellSize < 1 ∨ 64 < m.cellSize
  · rw [if_pos hcell] at h
    split at h <;> cases h
  · rw [if_neg hcell] at h
    simp only [hp, bind_eq_ok, mapError_eq_ok] at h
    obtain ⟨_, hpunctuation, _⟩ := h
    exact hpunctuation

/-- What is known of a machine that was loaded. -/
theorem of_load {t : Text} {m : Machine} (h : load t = .ok m) :
    m.Described ∧ m.punctuation = some m.punctuationTable ∧ m.validate = .ok () := by
  simp only [load, bind_eq_ok, mapError_eq_ok, pure_eq_ok] at h
  obtain ⟨m, hread, _, hvalid, rfl⟩ := h
  have hdescribed := ofJson_described hread
  refine ⟨{ hdescribed with punctuation := ?_ }, rfl, hvalid⟩
  intro p hp
  cases hp
  unfold punctuationTable
  cases hm : m.punctuation with
  | none => exact Punctuation.standard_described
  | some q => exact hdescribed.punctuation q hm

/-- A description without an error in its text. -/
theorem ofJson_of_readsBack {m : Machine}
    (h : ReadsBack 7 m.toJson (readDescription {}) (Draft.ofMachine m)) :
    ∃ text, m.save = .ok text ∧ ofJson text = .ok m := by
  obtain ⟨v, hwritten, hplain, hread⟩ := h
  have hnewline := Json.endsNumber_mark (s := "\n") (by decide) []
  rw [List.append_nil] at hnewline
  have hfirst := hplain.first?_render Json.Style.blank_indented (by decide) hnewline
  refine ⟨v.render .indented 0 ++ Text.ofString "\n", ?_, ?_⟩
  · simp only [save, hwritten, ok_bind]
    rfl
  · rw [ofJson, hfirst]
    simp only [hread]
    exact congrArg Except.ok (Draft.toMachine_ofMachine m)

/-- Saving a loaded machine and loading it again changes nothing: neither the
machine nor the text that it is saved as. -/
theorem load_save_of_load {t : Text} {m : Machine} (h : load t = .ok m) :
    ∃ text, m.save = .ok text ∧
      ∃ m', load text = .ok m' ∧ m' = m ∧ m'.save = .ok text := by
  obtain ⟨hdescribed, hpunctuation, hvalid⟩ := of_load h
  obtain ⟨g, hg, hnamed⟩ := (hdescribed.punctuation _ hpunctuation).eq_ofRoles
    (validate_punctuation hpunctuation hvalid)
  obtain ⟨text, hsave, hread⟩ := ofJson_of_readsBack
    (readsBack_machine hdescribed (hpunctuation.trans (congrArg some hg)) hnamed)
  refine ⟨text, hsave, m, ?_, rfl, hsave⟩
  have hkept : { m with punctuation := some m.punctuationTable } = m := by
    rw [← hpunctuation]
  simp only [load, hread, Except.mapError, ok_bind, hkept, hvalid]
  rfl

end Machine

namespace Sample

/-- A description with an escaped name and a key in another case, in which the
exclamation mark takes the role of the colon. -/
def description : Text :=
  Text.join ["\x7b\"Name\":\"\\u00e9<\",\"cellSize\":8,\"instructions\":",
    "[\x7b\"name\":\"x\",\"opcode\":255,\"fields\":[\x7b\"bits\":8\x7d]\x7d],",
    "\"punctuation\":\x7b\"!\":\"label\"\x7d\x7d"]

def described : Machine where
  name := "é<"
  cellSize := 8
  instructionList := some [{ name := "x", opcode := 255, fieldList := some [{ bits := 8 }] }]
  punctuation := some ((Punctuation.standard.insert ':' .symbol).insert '!' .label)

theorem load_description : Machine.load description = .ok described := by
  decide +kernel

theorem saved_description : Machine.load description = .ok described ∧
    ∃ text, described.save = .ok text ∧
      ∃ m, Machine.load text = .ok m ∧ m = described ∧ m.save = .ok text :=
  ⟨load_description, Machine.load_save_of_load load_description⟩

end Sample

end CellAsm
