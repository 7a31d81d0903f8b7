-- SUMMARY: An assembler recalls the last machine and the last program of its session.
import CellAsm.Proofs.PlainSource
import CellAsm.Proofs.Storage
import CellAsm.Proofs.Validity
import Mathlib.Data.List.DropRight

/-!
# Histories of sessions

A session is a row of commands: the user makes and changes descriptions, creates and updates
the assembler, has sources and files assembled, and changes the files. Each command either
fails, and then nothing happens, or it is an event. The events so far determine what the
assembler holds at any time. Its machine says what the description that was handed over last
said then, and its program is the last that was assembled.

Descriptions and machines lie in one storage, and the user changes a description in place. The
machine stays as it is because it is apart: no reference that the user has leads to a piece
of it.
-/
namespace CellAsm

/-! ## Events -/

/-- What a command that succeeds brings about. -/
inductive Event
  /-- A new assembler, for the description at this reference, which says `m` now. -/
  | created (r : Ref .machine) (m : Machine)
  /-- Another description for the assembler there is. -/
  | updated (r : Ref .machine) (m : Machine)
  /-- The user made or changed a description. -/
  | edited
  /-- The files became these. -/
  | stored (files : Table Text)
  | assembled (p : Program)
  /-- The program was asked for. -/
  | asked
deriving DecidableEq

namespace Event

/-- The reference that is handed over. -/
def held? : Event → Option (Ref .machine)
  | created r _ => some r
  | updated r _ => some r
  | _ => none

/-- What the description says that is handed over. -/
def machine? : Event → Option Machine
  | created _ m => some m
  | updated _ m => some m
  | _ => none

def files? : Event → Option (Table Text)
  | stored files => some files
  | _ => none

def program? : Event → Option Program
  | assembled p => some p
  | _ => none

def creates : Event → Bool
  | created .. => true
  | _ => false

end Event

def Answer.succeeded : Answer → Bool
  | refused _ => false
  | failed _ => false
  | _ => true

namespace Session

/-- A description of the user and what it says, if its copy is valid. -/
def acceptable? (s : Session) (m : Option (Ref .machine)) : Option (Ref .machine × Machine) := do
  let r ← m.filter fun r => r.piece ∈ s.owned
  let machine ← s.storage.machine? r
  if machine.snapshot.validate = .ok () then some (r, machine) else none

/-- What is assembled from a source for the machine and with the files of the session. -/
def assembled? (s : Session) (name contents : Text) (start : UInt64) : Option Program :=
  s.assembler?.bind fun a =>
    (SourceEnv.assemble ⟨a.machine, some (.ofRoot s.files)⟩ name contents start).result.toOption

/-- An edit, if the held description can be edited so. -/
def edited? (s : Session) {k : PieceKind} (list : MachineRecord → Option (Ref k))
    (f : k.Content → Option k.Content) : Option Event := do
  let m ← s.storage.find? s.held
  let r ← list m
  let c ← s.storage.read? r
  (f c).map fun _ => .edited

/-- What a command amounts to in a session, if it succeeds. -/
def event? (s : Session) : Command → Option Event
  | .describe _ => some .edited
  | .store _ c => if s.Owns c then some .edited else none
  | .write r c => if r.piece ∈ s.owned ∧ s.Owns c then some .edited else none
  | .new m => do
    let given ← s.acceptable? m
    some (.created given.1 given.2)
  | .update m => do
    let given ← s.acceptable? m
    s.assembler.map fun _ => .updated given.1 given.2
  | .reload => do
    let given ← s.acceptable? s.held
    s.assembler.map fun _ => .updated given.1 given.2
  | .setOpcode i value =>
    s.edited? MachineRecord.instructions fun specs => modifyAt? specs i ({ · with opcode := value })
  | .setEqu i value =>
    s.edited? MachineRecord.equs fun equs => modifyAt? equs i ({ · with value := value })
  | .put name contents => some (.stored (s.files.insert name contents))
  | .delete name => some (.stored (s.files.erase name))
  | .source name contents start => (s.assembled? name contents start).map .assembled
  | .file name start => do
    let contents ← ((Library.ofRoot s.files).read name).toOption
    (s.assembled? name contents start).map .assembled
  | .program => s.assembler.map fun _ => .asked

/-- The session when these commands were carried out. -/
def after (s : Session) : List Command → Session
  | [] => s
  | c :: cs => (s.step c).1.after cs

/-- The events of these commands. -/
def events (s : Session) : List Command → List Event
  | [] => []
  | c :: cs => (s.event? c).toList ++ (s.step c).1.events cs

end Session

/-! ## The descriptions of the user and the machine of the assembler -/

namespace Session

open Storage

/-- A piece that the user has no reference to. -/
def Other (s : Session) (p : Piece) : Prop := s.storage.Has p ∧ p ∉ s.owned

/-- The references that the user has lead to pieces of the user, and those in the machine of
the assembler to other pieces. -/
structure Apart (s : Session) : Prop where
  has : ∀ {p}, p ∈ s.owned → s.storage.Has p
  owned : ∀ {p}, p ∈ s.owned → ∀ q ∈ s.storage.refersTo p, q ∈ s.owned
  other : ∀ {p}, s.Other p → ∀ q ∈ s.storage.refersTo p, s.Other q
  held : ∀ {r}, s.held = some r → r.piece ∈ s.owned
  machine : ∀ {a}, s.assembler = some a → s.Other a.machine.piece

/-- The user can do this to the storage: pieces of the user change, and there are new ones. -/
structure Edits (s : Session) (storage : Storage) (owned : List Piece) : Prop where
  mem_owned : ∀ {p}, p ∈ owned ↔ p ∈ s.owned ∨ storage.New s.storage p
  kept : ∀ {p}, s.storage.Has p → storage.Has p
  same : ∀ {k : PieceKind} (r : Ref k), s.Other r.piece → storage.read? r = s.storage.read? r
  refers : ∀ {p}, p ∈ owned → ∀ q ∈ storage.refersTo p, q ∈ owned

/-- The assembler can do this to the storage: there is a new copy of the description at `r`. -/
structure Copies (s : Session) (r : Ref .machine) (m : Machine) (storage : Storage)
    (copy : Ref .machine) : Prop where
  owned : r.piece ∈ s.owned
  grown : s.storage.Grown storage
  new : storage.New s.storage copy.piece
  machine : storage.machine? copy = some m.snapshot
  valid : m.snapshot.validate = .ok ()

variable {s : Session} {storage : Storage} {owned : List Piece} {r copy : Ref .machine} {m : Machine}

theorem Apart.closed (hs : s.Apart) : s.storage.Closed := by
  intro p hp q hq
  by_cases howned : p ∈ s.owned
  · exact hs.has (hs.owned howned q hq)
  · exact (hs.other ⟨hp, howned⟩ q hq).1

namespace Edits

variable (he : s.Edits storage owned)
include he

theorem other_iff {p : Piece} :
    Other { s with storage := storage, owned := owned } p ↔ s.Other p := by
  unfold Other
  rw [he.mem_owned]
  constructor
  · rintro ⟨hp, hnot⟩
    obtain ⟨howned, hnew⟩ := not_or.1 hnot
    exact ⟨by_contra fun hbefore => hnew ⟨hp, hbefore⟩, howned⟩
  · rintro ⟨hp, howned⟩
    exact ⟨he.kept hp, not_or.2 ⟨howned, fun hnew => hnew.2 hp⟩⟩

theorem agree (hs : s.Apart) : Agree s.Other s.storage storage := ⟨hs.other, he.same⟩

theorem apart (hs : s.Apart) : Apart { s with storage := storage, owned := owned } where
  has hp := (he.mem_owned.1 hp).elim (fun hp => he.kept (hs.has hp)) And.left
  owned := he.refers
  other := by
    intro p hp q hq
    have hp := he.other_iff.1 hp
    have hsame : storage.refersTo p = s.storage.refersTo p := refersTo_congr (he.same p.ref hp)
    rw [hsame] at hq
    exact he.other_iff.2 (hs.other hp q hq)
  held hr := he.mem_owned.2 (.inl (hs.held hr))
  machine ha := he.other_iff.2 (hs.machine ha)

/-- The machine of the assembler stays as it is. -/
theorem assembler?_eq (hs : s.Apart) :
    assembler? { s with storage := storage, owned := owned } = s.assembler? := by
  unfold assembler?
  cases ha : s.assembler with
  | none => rfl
  | some a =>
    simp only [Option.bind_eq_bind, Option.bind_some, (he.agree hs).machine? (hs.machine ha)]

end Edits

/-- New pieces may refer to one another and to the pieces of the user. -/
theorem Apart.edits_of_extends (hs : s.Apart) (he : s.storage.Extends storage)
    (howned : ∀ {p}, p ∈ owned ↔ p ∈ s.owned ∨ storage.New s.storage p)
    (hnew : ∀ {p}, storage.New s.storage p → ∀ q ∈ storage.refersTo p, q ∈ owned) :
    s.Edits storage owned where
  mem_owned := howned
  kept := he.has
  same r hr := he.same r hr.1
  refers := by
    intro p hp
    rcases howned.1 hp with hp | hp
    · rw [he.refersTo (hs.has hp)]
      exact fun q hq => howned.2 (.inl (hs.owned hp q hq))
    · exact hnew hp

theorem Apart.edits_write (hs : s.Apart) {k : PieceKind} {r : Ref k} {c : k.Content}
    (hr : r.piece ∈ s.owned) (hc : s.Owns c) : s.Edits (s.storage.write r c) s.owned where
  mem_owned := by
    intro p
    have hold : ¬(s.storage.write r c).New s.storage p := fun hnew => hnew.2 (has_write.1 hnew.1)
    exact (or_iff_left hold).symm
  kept := has_write.2
  same r' hother := by
    have hne : r'.piece ≠ r.piece := fun heq => hother.2 (heq ▸ hr)
    exact read?_write_of_ne hne c
  refers := by
    intro p hp
    by_cases heq : p = r.piece
    · rw [heq, refersTo_of_read? (read?_write_self (hs.has hr) c)]
      exact hc
    · have hne : p.ref.piece ≠ r.piece := heq
      have hsame : (s.storage.write r c).refersTo p = s.storage.refersTo p :=
        refersTo_congr (read?_write_of_ne hne c)
      rw [hsame]
      exact hs.owned hp

namespace Copies

variable (hcopies : s.Copies r m storage copy)
include hcopies

theorem apart (hs : s.Apart) (result : Option Program) :
    Apart { s with storage := storage, assembler := some ⟨copy, result⟩, held := some r } where
  has hp := hcopies.grown.kept.has (hs.has hp)
  owned := by
    intro p hp
    rw [hcopies.grown.kept.refersTo (hs.has hp)]
    exact hs.owned hp
  other := by
    -- a piece from before refers to what it did, a piece of the copy to others of the copy
    rintro p ⟨hp, howned⟩
    by_cases hbefore : s.storage.Has p
    · rw [hcopies.grown.kept.refersTo hbefore]
      intro q hq
      obtain ⟨hq, hnot⟩ := hs.other ⟨hbefore, howned⟩ q hq
      exact ⟨hcopies.grown.kept.has hq, hnot⟩
    · intro q hq
      obtain ⟨hq, hnew⟩ := hcopies.grown.inward ⟨hp, hbefore⟩ q hq
      exact ⟨hq, fun howned => hnew (hs.has howned)⟩
  held := by
    rintro _ ⟨⟩
    exact hcopies.owned
  machine := by
    rintro _ ⟨⟩
    exact ⟨hcopies.new.1, fun howned => hcopies.new.2 (hs.has howned)⟩

theorem assembler?_eq (result : Option Program) :
    assembler? { s with storage := storage, assembler := some ⟨copy, result⟩, held := some r } =
      some ⟨m.snapshot, result⟩ := by
  simp only [assembler?, Option.bind_eq_bind, Option.bind_some, hcopies.machine]
  rfl

end Copies

end Session

/-! ## What one command does -/

/-- What an event makes of a session. -/
inductive Event.Turns (s : Session) : Event → Session → Prop
  | created {r copy : Ref .machine} {m : Machine} {storage : Storage}
      (hcopies : s.Copies r m storage copy) :
      Turns s (.created r m)
        { s with storage := storage, assembler := some { machine := copy }, held := some r }
  | updated {r copy : Ref .machine} {m : Machine} {storage : Storage} {a : StoredAssembler}
      (ha : s.assembler = some a) (hcopies : s.Copies r m storage copy) :
      Turns s (.updated r m)
        { s with storage := storage, assembler := some { a with machine := copy }, held := some r }
  | edited {storage : Storage} {owned : List Piece} (hedits : s.Edits storage owned) :
      Turns s .edited { s with storage := storage, owned := owned }
  | stored (files : Table Text) : Turns s (.stored files) { s with files := files }
  | assembled {p : Program} {a : StoredAssembler} (ha : s.assembler = some a) :
      Turns s (.assembled p) { s with assembler := some { a with result := some p } }
  | asked : Turns s .asked s

namespace Session

open Storage

/-- The two ways a command goes: it fails and changes nothing, or it succeeds and the
session is what the event makes of it. -/
inductive Performed (s : Session) : Option Event → Session × Answer → Prop
  | failed {answer : Answer} (h : answer.succeeded = false) : Performed s none (s, answer)
  | happened {e : Event} {s' : Session} {answer : Answer} (h : answer.succeeded = true)
      (hturns : e.Turns s s') : Performed s (some e) (s', answer)

variable {s : Session}

/-- The user has a reference to a new description, which says what it was made from. -/
theorem exists_describe (hs : s.Apart) (m : Machine) : ∃ r storage owned,
    s.describe m = ({ s with storage := storage, owned := owned }, .described r) ∧
    s.Edits storage owned ∧ storage.machine? r = some m ∧ r.piece ∈ owned := by
  obtain ⟨r, storage, hyields, hm, hnew⟩ := Storing.exists_describe s.storage m
  have howned : ∀ {p}, p ∈ s.owned ++ storage.beyond s.storage ↔
      p ∈ s.owned ∨ storage.New s.storage p := by
    intro p
    rw [List.mem_append, mem_beyond]
  refine ⟨r, storage, _, ?_, hs.edits_of_extends hyields.grown.kept howned ?_, hm,
    howned.2 (.inr hnew)⟩
  · simp only [describe, hyields.run]
  · exact fun hp q hq => howned.2 (.inr (hyields.grown.inward hp q hq))

theorem performed_describe (hs : s.Apart) (m : Machine) :
    s.Performed (some .edited) (s.describe m) := by
  obtain ⟨r, storage, owned, hdescribe, hedits, -⟩ := exists_describe hs m
  rw [hdescribe]
  exact .happened rfl (.edited hedits)

theorem performed_store (hs : s.Apart) (k : PieceKind) (c : k.Content) :
    s.Performed (if s.Owns c then some .edited else none) (s.store k c) := by
  unfold store
  by_cases hc : s.Owns c
  · have howned : ∀ {p}, p ∈ s.owned ++ [⟨k, (s.storage.contents k).length⟩] ↔
        p ∈ s.owned ∨ (s.storage.add k c).New s.storage p := by
      intro p
      rw [List.mem_append, List.mem_singleton, new_add]
    rw [if_pos hc, if_pos hc]
    refine .happened rfl (.edited (hs.edits_of_extends (extends_add _ c) howned ?_))
    intro p hp q hq
    have hrefers : (s.storage.add k c).refersTo p = k.refersTo c := by
      rw [new_add.1 hp]
      exact refersTo_of_read? (read?_add_self s.storage c)
    rw [hrefers] at hq
    exact howned.2 (.inl (hc q hq))
  · rw [if_neg hc, if_neg hc]
    exact .failed rfl

theorem performed_write (hs : s.Apart) {k : PieceKind} (r : Ref k) (c : k.Content) :
    s.Performed (if r.piece ∈ s.owned ∧ s.Owns c then some .edited else none) (s.write r c) := by
  unfold write
  split
  · rename_i h
    exact .happened rfl (.edited (hs.edits_write h.1 h.2))
  · exact .failed rfl

/-- An edit of the held description goes through the references in it. -/
theorem performed_edit (hs : s.Apart) {k : PieceKind} {list : MachineRecord → Option (Ref k)}
    (hlist : ∀ {m r}, list m = some r → r.piece ∈ m.pieces) {f : k.Content → Option k.Content}
    (hf : ∀ {c c'}, f c = some c' → k.refersTo c' = k.refersTo c) :
    s.Performed (s.edited? list f) (s.edit list f) := by
  unfold edited? edit
  cases hm : s.storage.find? s.held with
  | none => exact .failed rfl
  | some m =>
    obtain ⟨machine, hheld, hread⟩ := Option.bind_eq_some_iff.1 hm
    have hpieces := hs.owned (hs.held hheld)
    rw [refersTo_of_read? hread] at hpieces
    simp only [Option.bind_eq_bind, Option.bind_some]
    cases hr : list m with
    | none => exact .failed rfl
    | some r =>
      have howned := hpieces _ (hlist hr)
      obtain ⟨c, hc⟩ := exists_read? (hs.has howned)
      simp only [hc, Option.bind_some]
      cases hc' : f c with
      | none => exact .failed rfl
      | some c' =>
        have howns : s.Owns c' := by
          intro p hp
          rw [hf hc', ← refersTo_of_read? hc] at hp
          exact hs.owned howned p hp
        exact .happened rfl (.edited (hs.edits_write howned howns))

theorem map_modifyAt? {α β : Type} {l l' : List α} {i : Int} {f : α → α} {g : α → β}
    (h : modifyAt? l i f = some l') (hg : ∀ a, g (f a) = g a) : l'.map g = l.map g := by
  unfold modifyAt? at h
  split at h
  · cases h
    refine List.ext_getElem? fun j => ?_
    rw [List.getElem?_map, List.getElem?_map, List.getElem?_modify,
      Option.map_eq_map, Option.map_map]
    refine Option.map_congr fun a _ => ?_
    simp only [Function.comp_apply]
    split
    · exact hg a
    · rfl
  · cases h

/-- The description at `r`, and its copy. -/
theorem exists_accept (hs : s.Apart) {r : Ref .machine} (hr : r.piece ∈ s.owned) :
    ∃ record m copy storage, s.storage.read? r = some record ∧ s.storage.machine? r = some m ∧
      s.accept record = (do
        m.snapshot.validate.mapError .invalid
        return (copy, storage)) ∧
      (m.snapshot.validate = .ok () → s.Copies r m storage copy) := by
  obtain ⟨record, hrecord⟩ := exists_read? (hs.has hr)
  have hpieces := hs.closed (hs.has hr)
  rw [refersTo_of_read? hrecord] at hpieces
  obtain ⟨copy, storage, hyields, hmachine, hnew⟩ := Storing.exists_snapshot hs.closed hpieces
  refine ⟨record, s.storage.machine record, copy, storage, hrecord, ?_, ?_, ?_⟩
  · rw [machine?, hrecord, Option.map_some]
  · simp only [accept, hyields.run, hmachine]
  · exact fun hvalid => ⟨hr, hyields.grown, hnew, hmachine, hvalid⟩

/-- Handing over a description that is not acceptable fails. -/
theorem performed_hand (hs : s.Apart) (m : Option (Ref .machine))
    {keep : Ref .machine → Option StoredAssembler} (event : Ref .machine → Machine → Option Event)
    (hkeep : ∀ {r m' storage copy}, s.Copies r m' storage copy → s.Performed (event r m')
      (match keep copy with
        | none => s.faulty .absent
        | some a => ({ s with storage := storage, assembler := some a, held := some r }, .done))) :
    s.Performed ((s.acceptable? m).bind fun given => event given.1 given.2) (s.hand m keep) := by
  unfold acceptable? hand
  cases m with
  | none => exact .failed rfl
  | some r =>
    by_cases hr : r.piece ∈ s.owned
    · obtain ⟨record, m, copy, storage, hrecord, hm, haccept, hcopies⟩ := exists_accept hs hr
      simp only [Option.filter_some, hr, decide_true, if_true, hrecord, hm, haccept,
        Option.bind_eq_bind, Option.bind_some]
      cases hvalid : m.snapshot.validate with
      | error d =>
        exact .failed rfl
      | ok =>
        exact hkeep (hcopies hvalid)
    · simp only [Option.filter_some, hr, decide_false, if_false]
      exact .failed rfl

theorem performed_new (hs : s.Apart) (m : Option (Ref .machine)) :
    s.Performed (s.event? (.new m)) (s.hand m fun copy => some { machine := copy }) := by
  refine performed_hand hs m (fun r m => some (.created r m)) ?_
  intro r m storage copy hcopies
  exact .happened rfl (.created hcopies)

/-- Handing over a description of `m` amounts to handing over `m`. -/
theorem describe_then_new (hs : s.Apart) (m : Machine) :
    ∃ r, (s.step (.describe m)).2 = .described r ∧
      ((s.step (.describe m)).1.step (.new (some r))).2 =
        (match Assembler.create (some m) with
          | .ok _ => .done
          | .error e => .refused e) ∧
      ∀ a, Assembler.create (some m) = .ok a →
        ((s.step (.describe m)).1.step (.new (some r))).1.assembler? = some a := by
  obtain ⟨r, storage, owned, hdescribe, hedits, hm, hr⟩ := exists_describe hs m
  have hapart := hedits.apart hs
  obtain ⟨record, given, copy, storage', hrecord, hgiven, haccept, hcopies⟩ :=
    exists_accept hapart hr
  cases hm.symm.trans hgiven
  refine ⟨r, by rw [step, hdescribe], ?_⟩
  simp only [step, hdescribe, hand, hr, if_true, hrecord, haccept, Assembler.create,
    Assembler.accept]
  cases hvalid : m.snapshot.validate with
  | error d =>
    refine ⟨rfl, ?_⟩
    rintro a ⟨⟩
  | ok =>
    refine ⟨rfl, ?_⟩
    rintro a ⟨⟩
    exact (hcopies hvalid).assembler?_eq none

theorem performed_update (hs : s.Apart) (m : Option (Ref .machine)) :
    s.Performed (s.event? (.update m)) (s.update m) := by
  refine performed_hand hs m (fun r m => s.assembler.map fun _ => .updated r m) ?_
  intro r m storage copy hcopies
  cases ha : s.assembler with
  | none => exact .failed rfl
  | some a => exact .happened rfl (.updated ha hcopies)

theorem exists_of_assembler? {a : Assembler} (ha : s.assembler? = some a) :
    ∃ machine, s.assembler = some ⟨machine, a.result⟩ := by
  obtain ⟨stored, hstored, ha⟩ := Option.bind_eq_some_iff.1 ha
  obtain ⟨machine, _, ha⟩ := Option.bind_eq_some_iff.1 ha
  cases ha
  exact ⟨stored.machine, hstored⟩

theorem assembler?_with_result {a : StoredAssembler} (ha : s.assembler = some a) (p : Program) :
    assembler? { s with assembler := some { a with result := some p } } =
      s.assembler?.map ({ · with result := some p }) := by
  simp only [assembler?, ha, Option.bind_eq_bind, Option.bind_some, Option.map_bind]
  rfl

/-- An assembly that fails leaves the program that was there. -/
theorem eq_with_result {a : Assembler} (ha : s.assembler? = some a) :
    { s with assembler := s.assembler.map ({ · with result := a.result }) } = s := by
  obtain ⟨machine, hstored⟩ := exists_of_assembler? ha
  have hsame : s.assembler.map ({ · with result := a.result }) = s.assembler := by
    rw [hstored, Option.map_some]
  rw [hsame]

theorem performed_source (name contents : Text) (start : UInt64) :
    s.Performed ((s.assembled? name contents start).map .assembled)
      (s.run fun a library => a.assembleSource library name contents start) := by
  unfold assembled? run
  cases ha : s.assembler? with
  | none => exact .failed rfl
  | some a =>
    simp only [Assembler.assembleSource, Option.bind_some]
    cases hresult : (SourceEnv.assemble ⟨a.machine, some (.ofRoot s.files)⟩ name contents
        start).result with
    | error e =>
      simp only [hresult, eq_with_result ha]
      exact .failed rfl
    | ok p =>
      obtain ⟨machine, hstored⟩ := exists_of_assembler? ha
      simp only [hresult, hstored, Option.map_some]
      exact .happened rfl (.assembled hstored)

theorem performed_file (name : Text) (start : UInt64) :
    s.Performed (s.event? (.file name start))
      (s.run fun a library => a.assembleFile library name start) := by
  have hsource := fun contents => performed_source (s := s) name contents start
  simp only [event?, run, Assembler.assembleFile] at hsource ⊢
  cases (Library.ofRoot s.files).read name with
  | ok contents => exact hsource contents
  | error reason =>
    cases ha : s.assembler? with
    | none => exact .failed rfl
    | some a =>
      simp only [eq_with_result ha]
      exact .failed rfl

/-- Every command fails and changes nothing, or is the event that it amounts to. -/
theorem performed (hs : s.Apart) (c : Command) : s.Performed (s.event? c) (s.step c) := by
  cases c with
  | describe m => exact performed_describe hs m
  | store k c => exact performed_store hs k c
  | write r c => exact performed_write hs r c
  | new m => exact performed_new hs m
  | update m => exact performed_update hs m
  | reload => exact performed_update hs s.held
  | setOpcode i value =>
    refine performed_edit hs (fun hr => ?_) fun {specs specs'} hspecs => ?_
    · simp [MachineRecord.pieces, hr]
    · have hpieces := map_modifyAt? (g := InstructionRecord.pieces) hspecs fun _ => rfl
      have hflat : specs'.flatMap InstructionRecord.pieces =
          specs.flatMap InstructionRecord.pieces := by
        rw [List.flatMap_def, hpieces, ← List.flatMap_def]
      exact hflat
  | setEqu i value =>
    refine performed_edit hs (fun hr => ?_) fun _ => rfl
    simp [MachineRecord.pieces, hr]
  | put name contents => exact .happened rfl (.stored _)
  | delete name => exact .happened rfl (.stored _)
  | source name contents start => exact performed_source name contents start
  | file name start => exact performed_file name start
  | program =>
    unfold event? step
    cases ha : s.assembler with
    | none => exact .failed rfl
    | some a => exact .happened rfl .asked

/-! ## What a row of commands does -/

/-- A session that began with these files holds what the events so far left. The machine of
the assembler says what the description said that was last handed over, and the program is
the last since the assembler was created. -/
structure Recalls (s : Session) (files : Table Text) (events : List Event) : Prop where
  files : s.files = (events.filterMap Event.files?).getLast?.getD files
  held : s.held = (events.filterMap Event.held?).getLast?
  machine : s.assembler?.map Assembler.machine =
    (events.filterMap Event.machine?).getLast?.map Machine.snapshot
  valid : ∀ a, s.assembler? = some a → a.machine.validate = .ok () ∧ a.machine.punctuation.isSome
  program : s.assembler.bind StoredAssembler.result =
    ((events.rtakeWhile fun e => !e.creates).filterMap Event.program?).getLast?
  apart : s.Apart

variable {files : Table Text} {events : List Event}

theorem getLast?_filterMap_concat {α : Type} (f : Event → Option α) (events : List Event)
    (e : Event) :
    ((events ++ [e]).filterMap f).getLast? = (f e).or (events.filterMap f).getLast? := by
  rw [List.filterMap_append]
  cases hf : f e with
  | none => simp [hf]
  | some a => simp [hf]

/-- One more event: each history goes on with what the event has for it, if anything. -/
theorem Recalls.concat {e : Event} (hfiles : s.files = e.files?.getD
      ((events.filterMap Event.files?).getLast?.getD files))
    (hheld : s.held = e.held?.or (events.filterMap Event.held?).getLast?)
    (hmachine : s.assembler?.map Assembler.machine =
      (e.machine?.or (events.filterMap Event.machine?).getLast?).map Machine.snapshot)
    (hvalid : ∀ a, s.assembler? = some a →
      a.machine.validate = .ok () ∧ a.machine.punctuation.isSome)
    (hprogram : s.assembler.bind StoredAssembler.result = if e.creates then none else
      e.program?.or ((events.rtakeWhile fun e => !e.creates).filterMap Event.program?).getLast?)
    (hapart : s.Apart) :
    s.Recalls files (events ++ [e]) where
  files := by
    rw [getLast?_filterMap_concat, hfiles]
    cases e.files? with
    | none => rfl
    | some files => rfl
  held := by rw [getLast?_filterMap_concat, hheld]
  machine := by rw [getLast?_filterMap_concat, hmachine]
  valid := hvalid
  program := by
    rw [hprogram, List.rtakeWhile_concat]
    cases e.creates with
    | true => rfl
    | false => exact (getLast?_filterMap_concat ..).symm
  apart := hapart

theorem Recalls.turn (h : s.Recalls files events) {e : Event} {s' : Session}
    (hturns : e.Turns s s') : s'.Recalls files (events ++ [e]) := by
  obtain ⟨hfiles, hheld, hmachine, hvalid, hprogram, hapart⟩ := h
  cases hturns with
  | created hcopies =>
    have hassembler := hcopies.assembler?_eq none
    refine .concat hfiles rfl (by rw [hassembler]; rfl) ?_ rfl (hcopies.apart hapart none)
    rw [hassembler]
    rintro _ ⟨⟩
    exact ⟨hcopies.valid, rfl⟩
  | @updated _ _ _ _ a ha hcopies =>
    have hassembler := hcopies.assembler?_eq a.result
    rw [ha] at hprogram
    refine .concat hfiles rfl (by rw [hassembler]; rfl) ?_ hprogram (hcopies.apart hapart a.result)
    rw [hassembler]
    rintro _ ⟨⟩
    exact ⟨hcopies.valid, rfl⟩
  | edited hedits =>
    rw [← hedits.assembler?_eq hapart] at hmachine hvalid
    exact .concat hfiles hheld hmachine hvalid hprogram (hedits.apart hapart)
  | stored =>
    exact .concat rfl hheld hmachine hvalid hprogram
      ⟨hapart.has, hapart.owned, hapart.other, hapart.held, hapart.machine⟩
  | @assembled p a ha =>
    have hassembler := assembler?_with_result ha p
    refine .concat hfiles hheld ?_ ?_ rfl
      ⟨hapart.has, hapart.owned, hapart.other, hapart.held, ?_⟩
    · rw [hassembler, Option.map_map]
      exact hmachine
    · rw [hassembler]
      intro _ hmap
      obtain ⟨b, hb, rfl⟩ := Option.map_eq_some_iff.1 hmap
      exact hvalid b hb
    · have hother := hapart.machine ha
      rintro _ ⟨⟩
      exact hother
  | asked => exact .concat hfiles hheld hmachine hvalid hprogram hapart

theorem Recalls.step (h : s.Recalls files events) (c : Command) :
    (s.step c).1.Recalls files (events ++ (s.event? c).toList) := by
  have hperformed := performed h.apart c
  generalize s.event? c = event, s.step c = done at hperformed
  cases hperformed with
  | failed => rwa [Option.toList_none, List.append_nil]
  | happened _ hturns => exact h.turn hturns

theorem Recalls.after (h : s.Recalls files events) (cs : List Command) :
    (s.after cs).Recalls files (events ++ s.events cs) := by
  induction cs generalizing s events with
  | nil => rwa [Session.events, List.append_nil]
  | cons c cs ih =>
    have hrest := ih (h.step c)
    rwa [List.append_assoc] at hrest

theorem after_append (s : Session) (cs cs' : List Command) :
    s.after (cs ++ cs') = (s.after cs).after cs' := by
  induction cs generalizing s with
  | nil => rfl
  | cons c cs ih => exact ih _

theorem events_append (s : Session) (cs cs' : List Command) :
    s.events (cs ++ cs') = s.events cs ++ (s.after cs).events cs' := by
  induction cs generalizing s with
  | nil => rfl
  | cons c cs ih =>
    simp only [List.cons_append, Session.events, Session.after, ih, List.append_assoc]

theorem step_of_event?_eq_none (hs : s.Apart) {c : Command} (hc : s.event? c = none) :
    (s.step c).1 = s := by
  have hperformed := performed hs c
  rw [hc] at hperformed
  generalize s.step c = done at hperformed
  cases hperformed
  rfl

theorem step_of_event?_assembled (hs : s.Apart) {c : Command} {p : Program}
    (hc : s.event? c = some (.assembled p)) :
    ∃ a, (s.step c).1 = { s with assembler := some a } := by
  have hperformed := performed hs c
  rw [hc] at hperformed
  generalize s.step c = done at hperformed
  cases hperformed with
  | happened _ hturns =>
    cases hturns
    exact ⟨_, rfl⟩

theorem apart_empty (files : Table Text) : Apart { files := files } where
  has hp := absurd hp List.not_mem_nil
  owned hp := absurd hp List.not_mem_nil
  other hp := absurd hp.1 (Nat.not_lt_zero _)
  held hr := by cases hr
  machine ha := by cases ha

theorem recalls_empty (files : Table Text) : Recalls { files := files } files [] where
  files := rfl
  held := rfl
  machine := rfl
  valid := by
    intro a ha
    cases ha
  program := rfl
  apart := apart_empty files

/-- In every session, whatever the commands and their order, and wherever the user edits the
descriptions: the machine of the assembler says what the description said that was last
handed over with success, as it was then, and it is valid and has its punctuation. No
reference that the user has leads to it. There is a program once an assembly succeeded, and
it is what the last one made of its source for the machine and with the files of that time.
A command succeeds exactly if it amounts to an event, and one that fails changes nothing. -/
theorem recalls_after (files : Table Text) (cs : List Command) :
    let s := Session.after { files := files } cs
    s.Recalls files (Session.events { files := files } cs) ∧
    ∀ c, (s.step c).2.succeeded = (s.event? c).isSome ∧
      ((s.step c).2.succeeded = false → (s.step c).1 = s) := by
  intro s
  have hrecalls : s.Recalls files (Session.events { files := files } cs) :=
    (recalls_empty files).after cs
  refine ⟨hrecalls, ?_⟩
  intro c
  have hperformed := performed hrecalls.apart c
  generalize s.event? c = event, s.step c = done at hperformed
  cases hperformed with
  | failed h => exact ⟨h, fun _ => rfl⟩
  | happened h => exact ⟨h, fun hfailed => by cases h.symm.trans hfailed⟩

end Session

namespace Sample

/-- The description after the user changed the values of a register and left an instruction
without fields. -/
def spoiled : Machine :=
  { machine with
    instructionList := some [
      { jump with fieldList := some [] },
      { select with fieldList := some [{ bits := 8 }, { register with values := [⟨"r9", 9⟩] }] }] }

/-- The user makes a description, hands it over, and changes two of its pieces in place. It
cannot be handed over again. -/
def edits : List Command := [
  .describe machine, .new (some ⟨0⟩), .write (k := .named) ⟨0⟩ [⟨"r9", 9⟩],
  .write (k := .fields) ⟨0⟩ [], .reload]

/-- A source is assembled, and what comes after it fails. -/
def assembly : List Command := [.source "sample" source 5, .update none, .file "gone" 0]

theorem assembly_after {s : Session} {p : Program} {events : List Event}
    (hs : s.Recalls {} events) (hfiles : s.files = {})
    (hsource : s.event? (.source "sample" source 5) = some (.assembled p)) :
    s.events assembly = [.assembled p] ∧ (s.after assembly).storage = s.storage := by
  obtain ⟨a, hstep⟩ := Session.step_of_event?_assembled hs.apart hsource
  have hapart := (hs.step (.source "sample" source 5)).apart
  have hgone : Session.event? { s with assembler := some a } (.file "gone" 0) = none := by
    have hread : ((Library.ofRoot s.files).read "gone").toOption = none := by
      rw [hfiles]
      decide +kernel
    simp only [Session.event?, hread, Option.bind_eq_bind, Option.bind_none]
  rw [hstep] at hapart
  have hlast := Session.step_of_event?_eq_none hapart hgone
  have hupdate : Session.step { s with assembler := some a } (.update none) =
    ({ s with assembler := some a }, .refused .absent) := rfl
  simp only [assembly, Session.events, Session.after, hsource, hstep, hupdate, hgone, hlast]
  exact ⟨rfl, trivial⟩

/-- The assembler has the machine from before the edits, and assembles for it. -/
theorem operations_recalled : ∃ p, p.blocks.length = 6 ∧
    Session.events {} (edits ++ assembly) =
      [.edited, .created ⟨0⟩ machine, .edited, .edited, .assembled p] ∧
    (Session.after {} (edits ++ assembly)).storage.machine? ⟨0⟩ = some spoiled ∧
    (Session.after {} (edits ++ assembly)).assembler?.map Assembler.machine =
      some machine.snapshot ∧
    (Session.after {} (edits ++ assembly)).assembler.bind StoredAssembler.result = some p ∧
    ((Session.after {} (edits ++ assembly)).step (.new none)).1 =
      Session.after {} (edits ++ assembly) := by
  have hplain : (plainAssemble? assembler.machine "sample" source 5).map
      (fun p => p.blocks.length) = some 6 := by decide +kernel
  obtain ⟨p, hp, hlength⟩ := Option.map_eq_some_iff.1 hplain
  have hresult := Assembler.assembleSource_of_plainAssemble? (.ofRoot {}) hp
  rw [Assembler.assembleSource_snd] at hresult
  have hkernel : Session.events {} edits = [.edited, .created ⟨0⟩ machine, .edited, .edited] ∧
      (Session.after {} edits).storage.machine? ⟨0⟩ = some spoiled ∧
      (Session.after {} edits).files = {} := by decide +kernel
  obtain ⟨hedits, hspoiled, hfiles⟩ := hkernel
  have hbefore := (Session.recalls_empty {}).after edits
  rw [hedits] at hbefore
  obtain ⟨a, ha, hmachine⟩ := Option.map_eq_some_iff.1 hbefore.machine
  have hassembled : (Session.after {} edits).assembled? "sample" source 5 = some p := by
    rw [Session.assembled?, ha, Option.bind_some, hmachine, hfiles]
    exact toOption_eq_some.2 hresult
  obtain ⟨hassembly, hstorage⟩ :=
    assembly_after hbefore hfiles (by rw [Session.event?, hassembled, Option.map_some])
  have hevents : Session.events {} (edits ++ assembly) =
      [.edited, .created ⟨0⟩ machine, .edited, .edited, .assembled p] := by
    rw [Session.events_append, hedits, hassembly]
    rfl
  obtain ⟨hrecalls, hnext⟩ := Session.recalls_after {} (edits ++ assembly)
  rw [hevents] at hrecalls
  refine ⟨p, hlength, hevents, ?_, hrecalls.machine, hrecalls.program, (hnext _).2 rfl⟩
  rw [Session.after_append, hstorage, hspoiled]

end Sample

end CellAsm
