-- SUMMARY: What a machine description that was read from JSON can hold.
import CellAsm.Proofs.Json.Value
import CellAsm.Proofs.Punctuation

/-!
# Descriptions that were read

A description in memory may hold anything; one that was read from JSON may not.
Its names are UTF-8, its numbers have 64 bits, and the kinds of its fields have
names. A reader gives such parts whenever the parts it reads on top of are such,
so the property is shown reader by reader, with no regard to the errors that are
remembered on the way.
-/
namespace CellAsm

open Json (Value)

/-! ## The parts of a description -/

/-- A signed number of 64 bits. -/
def IsInt64 (n : Int) : Prop := -(2 ^ 63) ≤ n ∧ n < 2 ^ 63

structure NamedValue.Described (v : NamedValue) : Prop where
  name : v.name.IsUtf8
  value : IsInt64 v.value

structure Field.Described (f : Field) : Prop where
  name : f.name.IsUtf8
  bits : IsInt64 f.bits
  relativity : f.relativity.name?.isSome
  presence : f.presence.name?.isSome
  values : ∀ v ∈ f.values, v.Described

structure Instruction.Described (s : Instruction) : Prop where
  name : s.name.IsUtf8
  fields : ∀ f ∈ s.fields, f.Described

structure Machine.Described (m : Machine) : Prop where
  name : m.name.IsUtf8
  cellSize : IsInt64 m.cellSize
  instructions : ∀ s ∈ m.instructions, s.Described
  equs : ∀ v ∈ m.equs, v.Described
  punctuation : ∀ p, m.punctuation = some p → p.Described

theorem isUtf8_nil : Text.IsUtf8 [] := ⟨[], rfl⟩

theorem isInt64_zero : IsInt64 0 := by
  unfold IsInt64
  omega

theorem Relativity.name?_of_ofName? {t : Text} {r : Relativity} (h : Relativity.ofName? t = some r) :
    r.name?.isSome := by
  unfold Relativity.ofName? at h
  have hname := List.find?_some h
  exact isSome_of_any hname

theorem Presence.name?_of_ofName? {t : Text} {p : Presence} (h : Presence.ofName? t = some p) :
    p.name?.isSome := by
  unfold Presence.ofName? at h
  have hname := List.find?_some h
  exact isSome_of_any hname

namespace Machine

/-! ## Readers -/

/-- Whatever error is remembered before, the reader gives a result with the
property. -/
def Reading.Gives {α : Type} (P : α → Prop) (r : Reading α) : Prop := ∀ e, P (r.run e).1

namespace Reading.Gives

variable {α β : Type} {P : α → Prop} {Q : β → Prop}

theorem pure {a : α} (h : P a) : Gives P (Pure.pure a) := fun _ => h

theorem bind {r : Reading α} {f : α → Reading β} (h : Gives P r) (hf : ∀ a, P a → Gives Q (f a)) :
    Gives Q (r >>= f) := by
  intro e
  exact hf _ (h e) (r.run e).2

theorem note_then {e : ReadError} {r : Reading α} (h : Gives P r) :
    Gives P (do Reading.note e; r) := by
  intro e'
  exact h _

theorem of_finish {r : Reading α} (h : Gives P r) {a : α} (hfinish : r.finish = .ok a) : P a := by
  unfold finish at hfinish
  split at hfinish
  · rename_i heq
    cases hfinish
    have hresult := h none
    rw [heq] at hresult
    exact hresult
  · cases hfinish

end Reading.Gives

open Reading.Gives

theorem readText_gives {old : Text} (hold : old.IsUtf8) {v : Value} (hv : v.Decoded) :
    (readText old v).Gives Text.IsUtf8 := by
  cases hv with
  | string h => exact .pure h
  | null => exact .pure hold
  | _ => exact .note_then (.pure hold)

theorem readInt_gives {old : Int} (hold : IsInt64 old) (v : Value) :
    (readInt old v).Gives IsInt64 := by
  unfold readInt
  split
  · split
    · split
      · rename_i hrange
        exact .pure hrange
      · exact .note_then (.pure hold)
    · exact .note_then (.pure hold)
  · exact .pure hold
  · exact .note_then (.pure hold)

theorem readRelativity_gives {old : Relativity} (hold : old.name?.isSome) (v : Value) :
    (readRelativity old v).Gives fun r => r.name?.isSome := by
  unfold readRelativity
  split
  · split
    · rename_i r hr
      exact .pure (Relativity.name?_of_ofName? hr)
    · exact .note_then (.pure hold)
  · exact .pure hold
  · exact .note_then (.pure hold)

theorem readPresence_gives {old : Presence} (hold : old.name?.isSome) (v : Value) :
    (readPresence old v).Gives fun p => p.name?.isSome := by
  unfold readPresence
  split
  · split
    · rename_i p hp
      exact .pure (Presence.name?_of_ofName? hp)
    · exact .note_then (.pure hold)
  · exact .pure hold
  · exact .note_then (.pure hold)

/-! ## Lists and objects -/

/-- All items of the list have the property, and so have those left behind. -/
def Slots.All {α : Type} (P : α → Prop) (slots : Option (Slots α)) : Prop :=
  ∀ s, slots = some s → ∀ a ∈ s.items ++ s.left, P a

theorem Slots.all_none {α : Type} (P : α → Prop) : Slots.All P none := by
  intro s hs
  cases hs

theorem Slots.All.items {α : Type} {P : α → Prop} {slots : Option (Slots α)}
    (h : Slots.All P slots) : ∀ a ∈ (slots.map Slots.items).getD [], P a := by
  cases slots with
  | none => simp
  | some s => exact fun a ha => h s rfl a (List.mem_append_left _ ha)

section Lists

variable {α : Type} {P : α → Prop} {blank : α} {readItem : α → Value → Reading α}
  (hblank : P blank) (hitem : ∀ a v, P a → v.Decoded → (readItem a v).Gives P)

include hblank hitem

theorem readItems_gives {before : List α} (hbefore : ∀ a ∈ before, P a) {vs : List Value}
    (hvs : ∀ v ∈ vs, v.Decoded) :
    (readItems blank readItem before vs).Gives fun items => ∀ a ∈ items, P a := by
  induction vs generalizing before with
  | nil =>
    rw [readItems]
    exact .pure (by simp)
  | cons v vs ih =>
    rw [List.forall_mem_cons] at hvs
    cases before with
    | nil =>
      refine bind (hitem blank v hblank hvs.1) fun a ha => bind (ih hbefore hvs.2) fun items hitems => ?_
      exact .pure (List.forall_mem_cons.2 ⟨ha, hitems⟩)
    | cons old before =>
      rw [List.forall_mem_cons] at hbefore
      refine bind (hitem old v hbefore.1 hvs.1) fun a ha =>
        bind (ih hbefore.2 hvs.2) fun items hitems => ?_
      exact .pure (List.forall_mem_cons.2 ⟨ha, hitems⟩)

theorem readList_gives {old : Option (Slots α)} (hold : Slots.All P old) {v : Value}
    (hv : v.Decoded) : (readList blank readItem old v).Gives (Slots.All P) := by
  unfold readList
  split
  · refine .pure fun s hs => ?_
    cases hs
    simp
  · cases hv with
    | array hvs =>
      have hbefore : ∀ a ∈ (old.getD {}).items ++ (old.getD {}).left, P a := by
        cases old with
        | none => simp
        | some s => exact hold s rfl
      refine bind (readItems_gives hblank hitem hbefore hvs) fun items hitems => .pure fun s hs => ?_
      cases hs
      intro a ha
      rcases List.mem_append.1 ha with ha | ha
      · exact hitems a ha
      · exact hbefore a (List.mem_of_mem_drop ha)
  · exact .pure (Slots.all_none P)
  · exact .note_then (.pure hold)

end Lists

theorem readObject_gives {α : Type} {P : α → Prop}
    {readMember : α → Text → Value → Option (Reading α)}
    (hmember : ∀ a key v r, P a → v.Decoded → readMember a key v = some r → r.Gives P) {old : α}
    (hold : P old) {v : Value} (hv : v.Decoded) : (readObject readMember old v).Gives P := by
  unfold readObject
  split
  · rename_i members
    cases hv with
    | object hmembers =>
      induction members generalizing old with
      | nil => exact .pure hold
      | cons m members ih =>
        rw [List.forall_mem_cons] at hmembers
        rw [List.foldlM_cons]
        refine bind (P := P) ?_ fun a ha => ih ha hmembers.2
        dsimp only
        split
        · rename_i r hr
          exact hmember old m.1 m.2 r hold hmembers.1 hr
        · exact .note_then (.pure hold)
  · exact .pure hold
  · exact .note_then (.pure hold)

/-! ## Drafts -/

structure FieldDraft.Described (d : FieldDraft) : Prop where
  name : d.field.name.IsUtf8
  bits : IsInt64 d.field.bits
  relativity : d.field.relativity.name?.isSome
  presence : d.field.presence.name?.isSome
  values : Slots.All NamedValue.Described d.values

structure InstructionDraft.Described (d : InstructionDraft) : Prop where
  name : d.name.IsUtf8
  fields : Slots.All FieldDraft.Described d.fields

structure Draft.Described (d : Draft) : Prop where
  name : d.name.IsUtf8
  cellSize : IsInt64 d.cellSize
  instructions : Slots.All InstructionDraft.Described d.instructions
  equs : Slots.All NamedValue.Described d.equs
  punctuation : ∀ p, d.punctuation = some p → p.Described

theorem blankValue_described : ({} : NamedValue).Described := ⟨isUtf8_nil, isInt64_zero⟩

theorem blankField_described : ({} : FieldDraft).Described :=
  ⟨isUtf8_nil, isInt64_zero, rfl, rfl, Slots.all_none _⟩

theorem blankInstruction_described : ({} : InstructionDraft).Described :=
  ⟨isUtf8_nil, Slots.all_none _⟩

theorem blankDraft_described : ({} : Draft).Described :=
  ⟨isUtf8_nil, isInt64_zero, Slots.all_none _, Slots.all_none _, fun p hp => by cases hp⟩

theorem FieldDraft.Described.toField {d : FieldDraft} (h : d.Described) : d.toField.Described :=
  ⟨h.name, h.bits, h.relativity, h.presence, h.values.items⟩

theorem InstructionDraft.Described.toInstruction {d : InstructionDraft} (h : d.Described) :
    d.toInstruction.Described := by
  refine ⟨h.name, fun f hf => ?_⟩
  have hitems := h.fields.items
  simp only [Instruction.fields, InstructionDraft.toInstruction] at hf
  cases hfields : d.fields with
  | none => simp [hfields] at hf
  | some s =>
    simp only [hfields, Option.map_some, Option.getD_some] at hf hitems
    obtain ⟨draft, hdraft, rfl⟩ := List.mem_map.1 hf
    exact (hitems draft hdraft).toField

theorem Draft.Described.toMachine {d : Draft} (h : d.Described) : d.toMachine.Described := by
  refine ⟨h.name, h.cellSize, fun s hs => ?_, h.equs.items, h.punctuation⟩
  have hitems := h.instructions.items
  simp only [Machine.instructions, Draft.toMachine] at hs
  cases hlist : d.instructions with
  | none => simp [hlist] at hs
  | some slots =>
    simp only [hlist, Option.map_some, Option.getD_some] at hs hitems
    obtain ⟨draft, hdraft, rfl⟩ := List.mem_map.1 hs
    exact (hitems draft hdraft).toInstruction

/-! ## Descriptions -/

theorem readNamedValue_gives {d : NamedValue} (hd : d.Described) {v : Value} (hv : v.Decoded) :
    (readNamedValue d v).Gives NamedValue.Described := by
  refine readObject_gives ?_ hd hv
  intro d key v r hd hv hr
  unfold readValueMember at hr
  split at hr
  · cases hr
    exact bind (readText_gives hd.name hv) fun name hname => .pure { hd with name := hname }
  · split at hr
    · cases hr
      exact bind (readInt_gives hd.value v) fun value hvalue => .pure { hd with value := hvalue }
    · cases hr

theorem readField_gives {d : FieldDraft} (hd : d.Described) {v : Value} (hv : v.Decoded) :
    (readField d v).Gives FieldDraft.Described := by
  refine readObject_gives ?_ hd hv
  intro d key v r hd hv hr
  unfold readFieldMember at hr
  split at hr
  · cases hr
    exact bind (readText_gives hd.name hv) fun name hname => .pure { hd with name := hname }
  split at hr
  · cases hr
    exact bind (readInt_gives hd.bits v) fun bits hbits => .pure { hd with bits := hbits }
  split at hr
  · cases hr
    exact bind (readRelativity_gives hd.relativity v) fun r hr => .pure { hd with relativity := hr }
  split at hr
  · cases hr
    exact bind (readPresence_gives hd.presence v) fun p hp => .pure { hd with presence := hp }
  split at hr
  · cases hr
    exact bind (P := fun _ => True) (fun _ => trivial) fun signed _ => .pure { hd with }
  split at hr
  · cases hr
    exact bind (readList_gives blankValue_described (fun _ _ hd hv => readNamedValue_gives hd hv)
      hd.values hv) fun values hvalues => .pure { hd with values := hvalues }
  · cases hr

theorem readInstruction_gives {d : InstructionDraft} (hd : d.Described) {v : Value}
    (hv : v.Decoded) : (readInstruction d v).Gives InstructionDraft.Described := by
  refine readObject_gives ?_ hd hv
  intro d key v r hd hv hr
  unfold readInstructionMember at hr
  split at hr
  · cases hr
    exact bind (readText_gives hd.name hv) fun name hname => .pure { hd with name := hname }
  split at hr
  · cases hr
    exact bind (P := fun _ => True) (fun _ => trivial) fun opcode _ => .pure { hd with }
  split at hr
  · cases hr
    exact bind (readList_gives blankField_described (fun _ _ hd hv => readField_gives hd hv)
      hd.fields hv) fun fields hfields => .pure { hd with fields := hfields }
  · cases hr

theorem readDescription_gives {d : Draft} (hd : d.Described) {v : Value} (hv : v.Decoded) :
    (readDescription d v).Gives Draft.Described := by
  refine readObject_gives ?_ hd hv
  intro d key v r hd hv hr
  unfold readMachineMember at hr
  split at hr
  · cases hr
    exact bind (readText_gives hd.name hv) fun name hname => .pure { hd with name := hname }
  split at hr
  · cases hr
    exact bind (readInt_gives hd.cellSize v) fun n hn => .pure { hd with cellSize := hn }
  split at hr
  · cases hr
    exact bind (readList_gives blankInstruction_described
      (fun _ _ hd hv => readInstruction_gives hd hv) hd.instructions hv) fun l hl =>
        .pure { hd with instructions := hl }
  split at hr
  · cases hr
    exact bind (readList_gives blankValue_described (fun _ _ hd hv => readNamedValue_gives hd hv)
      hd.equs hv) fun equs hequs => .pure { hd with equs := hequs }
  split at hr
  · cases hr
    split
    · rename_i p hp
      refine .pure { hd with punctuation := fun q hq => ?_ }
      cases hq
      exact readPunctuation_described hp
    · exact .note_then (.pure hd)
  · cases hr

/-- A description that was read from a text. -/
theorem ofJson_described {t : Text} {m : Machine} (h : ofJson t = .ok m) : m.Described := by
  unfold ofJson at h
  split at h
  · rename_i v hv
    have hgives := readDescription_gives blankDraft_described (Value.first?_decoded hv)
    obtain ⟨d, hd, rfl⟩ := map_eq_ok.1 h
    exact (hgives.of_finish hd).toMachine
  · cases h

end Machine

end CellAsm
