-- SUMMARY: Pieces of storage: what a description depends on, and what a copy is made of.
import CellAsm.Machine.Storage
import CellAsm.Proofs.Outcome

/-!
# Descriptions and their copies

A description depends on nothing but the pieces that its references lead to. Storing
something leaves all pieces as they are, and what is stored refers to new pieces only.
So a copy says what the description said when it was made, and as long as nobody has a
reference to its pieces, it says so whatever is done to the description.
-/
namespace CellAsm

/-- What is described by the content of a piece. -/
abbrev PieceKind.Value : PieceKind → Type
  | .named => List NamedValue
  | .fields => List Field
  | .instructions => List Instruction
  | .punctuation => Punctuation
  | .machine => Machine

namespace Storage

variable {α : Type} {k j : PieceKind} {h h' before : Storage} {p : Piece}

/-! ## Reading and writing -/

@[simp] theorem contents_replacing_self (h : Storage) (l : List k.Content) :
    (h.replacing k l).contents k = l := dif_pos rfl

theorem contents_replacing_of_ne (h : Storage) (l : List k.Content) (hne : k ≠ j) :
    (h.replacing k l).contents j = h.contents j := dif_neg hne

theorem has_of_read? {r : Ref k} {c : k.Content} (hc : h.read? r = some c) : h.Has r.piece :=
  (List.getElem?_eq_some_iff.1 hc).1

theorem exists_read? {r : Ref k} (hr : h.Has r.piece) : ∃ c, h.read? r = some c :=
  ⟨_, List.getElem?_eq_getElem hr⟩

theorem refersTo_of_read? {r : Ref k} {c : k.Content} (hc : h.read? r = some c) :
    h.refersTo r.piece = k.refersTo c := by
  have hpiece : h.read? r.piece.ref = some c := hc
  rw [refersTo, hpiece]
  rfl

theorem refersTo_congr (hp : h'.read? p.ref = h.read? p.ref) : h'.refersTo p = h.refersTo p := by
  rw [refersTo, refersTo, hp]

theorem has_write {r : Ref k} {c : k.Content} : (h.write r c).Has p ↔ h.Has p := by
  unfold Has write
  by_cases hk : k = p.kind
  · cases p
    cases hk
    rw [contents_replacing_self, List.length_set]
  · rw [contents_replacing_of_ne _ _ hk]

theorem read?_write_self {r : Ref k} (hr : h.Has r.piece) (c : k.Content) :
    (h.write r c).read? r = some c := by
  unfold read? write
  rw [contents_replacing_self]
  exact List.getElem?_set_self hr

theorem read?_write_of_ne {r : Ref k} {r' : Ref j} (hne : r'.piece ≠ r.piece) (c : k.Content) :
    (h.write r c).read? r' = h.read? r' := by
  unfold read? write
  by_cases hk : k = j
  · cases hk
    rw [contents_replacing_self]
    refine List.getElem?_set_ne fun hindex => hne ?_
    rw [Ref.piece, Ref.piece, hindex]
  · rw [contents_replacing_of_ne _ _ hk]

theorem has_add {c : k.Content} :
    (h.add k c).Has p ↔ h.Has p ∨ p = ⟨k, (h.contents k).length⟩ := by
  obtain ⟨j, i⟩ := p
  unfold Has add
  dsimp only
  by_cases hk : k = j
  · cases hk
    rw [contents_replacing_self, List.length_append, List.length_singleton, Piece.mk.injEq]
    simp only [true_and]
    omega
  · have hother : ¬(⟨j, i⟩ : Piece) = ⟨k, (h.contents k).length⟩ := by
      rintro ⟨⟩
      exact hk rfl
    rw [contents_replacing_of_ne _ _ hk, or_iff_left hother]

theorem read?_add_of_has {r : Ref j} (hr : h.Has r.piece) (c : k.Content) :
    (h.add k c).read? r = h.read? r := by
  unfold read? add
  by_cases hk : k = j
  · cases hk
    rw [contents_replacing_self]
    exact List.getElem?_append_left hr
  · rw [contents_replacing_of_ne _ _ hk]

theorem read?_add_self (h : Storage) (c : k.Content) :
    (h.add k c).read? ⟨(h.contents k).length⟩ = some c := by
  unfold read? add
  rw [contents_replacing_self]
  exact List.getElem?_concat_length

/-! ## What a description depends on -/

def value (h : Storage) : (k : PieceKind) → k.Content → k.Value
  | .named, l => l
  | .fields, fs => fs.map h.field
  | .instructions, specs => specs.map h.instruction
  | .punctuation, p => p
  | .machine, m => h.machine m

/-- The storages hold the same in some pieces, from which no reference leads outside. -/
structure Agree (S : Piece → Prop) (h h' : Storage) : Prop where
  closed : ∀ {p}, S p → ∀ q ∈ h.refersTo p, S q
  same : ∀ {k : PieceKind} (r : Ref k), S r.piece → h'.read? r = h.read? r

namespace Agree

variable {S : Piece → Prop}

theorem find? (h₁ : Agree S h h') {r : Option (Ref k)} (hr : ∀ p ∈ r.toList.map Ref.piece, S p) :
    h'.find? r = h.find? r := by
  cases r with
  | none => rfl
  | some r => exact h₁.same r (hr _ List.mem_cons_self)

theorem refers (h₁ : Agree S h h') {r : Option (Ref k)} (hr : ∀ p ∈ r.toList.map Ref.piece, S p)
    {c : k.Content} (hc : h.find? r = some c) : ∀ p ∈ k.refersTo c, S p := by
  obtain ⟨r, rfl, hc⟩ := Option.bind_eq_some_iff.1 hc
  have hclosed := h₁.closed (hr _ List.mem_cons_self)
  rwa [refersTo_of_read? hc] at hclosed

theorem refers_getD (h₁ : Agree S h h') {r : Option (Ref k)}
    (hr : ∀ p ∈ r.toList.map Ref.piece, S p) {c : k.Content} (hc : k.refersTo c = []) :
    ∀ p ∈ k.refersTo ((h.find? r).getD c), S p := by
  cases hfound : h.find? r with
  | none =>
    rw [Option.getD_none, hc]
    exact List.forall_mem_nil _
  | some c => exact h₁.refers hr hfound

/-- A value that is made of what a reference leads to. -/
theorem find?_map (h₁ : Agree S h h') {r : Option (Ref k)} (hr : ∀ p ∈ r.toList.map Ref.piece, S p)
    (value : Storage → k.Content → α)
    (hvalue : ∀ c, (∀ p ∈ k.refersTo c, S p) → value h' c = value h c) :
    (h'.find? r).map (value h') = (h.find? r).map (value h) := by
  rw [h₁.find? hr]
  exact Option.map_congr fun c hc => hvalue c (h₁.refers hr hc)

theorem field (h₁ : Agree S h h') {f : FieldRecord} (hf : ∀ p ∈ f.pieces, S p) :
    h'.field f = h.field f := by
  simp only [Storage.field, named, h₁.find? hf]

theorem fields (h₁ : Agree S h h') (fs : List FieldRecord)
    (hfs : ∀ p ∈ PieceKind.fields.refersTo fs, S p) : fs.map h'.field = fs.map h.field :=
  List.map_congr_left fun f hf => h₁.field fun p hp => hfs p (List.mem_flatMap.2 ⟨f, hf, hp⟩)

theorem instruction (h₁ : Agree S h h') {s : InstructionRecord} (hs : ∀ p ∈ s.pieces, S p) :
    h'.instruction s = h.instruction s := by
  have hfields := h₁.find?_map hs (fun h => List.map h.field) h₁.fields
  simp only [Storage.instruction, hfields]

theorem instructions (h₁ : Agree S h h') (specs : List InstructionRecord)
    (hspecs : ∀ p ∈ PieceKind.instructions.refersTo specs, S p) :
    specs.map h'.instruction = specs.map h.instruction :=
  List.map_congr_left fun s hs =>
    h₁.instruction fun p hp => hspecs p (List.mem_flatMap.2 ⟨s, hs, hp⟩)

theorem machine (h₁ : Agree S h h') {m : MachineRecord} (hm : ∀ p ∈ m.pieces, S p) :
    h'.machine m = h.machine m := by
  obtain ⟨hlists, hpunctuation⟩ := List.forall_mem_append.1 hm
  obtain ⟨hspecs, hequs⟩ := List.forall_mem_append.1 hlists
  have hinstructions :=
    h₁.find?_map hspecs (fun h => List.map h.instruction) h₁.instructions
  simp only [Storage.machine, named, hinstructions, h₁.find? hequs, h₁.find? hpunctuation]

theorem value (h₁ : Agree S h h') {c : k.Content} (hc : ∀ p ∈ k.refersTo c, S p) :
    h'.value k c = h.value k c := by
  cases k with
  | named => rfl
  | fields => exact h₁.fields c hc
  | instructions => exact h₁.instructions c hc
  | punctuation => rfl
  | machine => exact h₁.machine hc

theorem machine? (h₁ : Agree S h h') {r : Ref .machine} (hr : S r.piece) :
    h'.machine? r = h.machine? r :=
  h₁.find?_map (r := some r) (List.forall_mem_singleton.2 hr) Storage.machine fun _ => h₁.machine

end Agree

/-! ## Growing storage -/

/-- All pieces hold what they held. -/
structure Extends (h h' : Storage) : Prop where
  same : ∀ {k : PieceKind} (r : Ref k), h.Has r.piece → h'.read? r = h.read? r

/-- No reference leads nowhere. -/
def Closed (h : Storage) : Prop := ∀ {p}, h.Has p → ∀ q ∈ h.refersTo p, h.Has q

/-- A piece that was not there before. -/
def New (h before : Storage) (p : Piece) : Prop := h.Has p ∧ ¬before.Has p

/-- The storage has all that was there before, and new pieces that refer to new ones only. -/
structure Grown (before h : Storage) : Prop where
  kept : before.Extends h
  inward : ∀ {p}, h.New before p → ∀ q ∈ h.refersTo p, h.New before q

theorem Extends.has (he : h.Extends h') (hp : h.Has p) : h'.Has p := by
  obtain ⟨c, hc⟩ := exists_read? (r := p.ref) hp
  exact has_of_read? ((he.same p.ref hp).trans hc)

theorem Extends.refl (h : Storage) : h.Extends h := ⟨fun _ _ => rfl⟩

theorem Extends.trans {h₁ h₂ h₃ : Storage} (h₁₂ : h₁.Extends h₂) (h₂₃ : h₂.Extends h₃) :
    h₁.Extends h₃ where
  same r hr := (h₂₃.same r (h₁₂.has hr)).trans (h₁₂.same r hr)

theorem Extends.refersTo (he : h.Extends h') (hp : h.Has p) : h'.refersTo p = h.refersTo p :=
  refersTo_congr (he.same p.ref hp)

theorem extends_add (h : Storage) (c : k.Content) : h.Extends (h.add k c) where
  same _ hr := read?_add_of_has hr c

theorem new_add {c : k.Content} : (h.add k c).New h p ↔ p = ⟨k, (h.contents k).length⟩ := by
  unfold New
  rw [has_add]
  constructor
  · rintro ⟨hp | rfl, hnew⟩
    · exact absurd hp hnew
    · rfl
  · rintro rfl
    exact ⟨.inr rfl, Nat.lt_irrefl _⟩

theorem mem_beyond : p ∈ h.beyond before ↔ h.New before p := by
  obtain ⟨k, i⟩ := p
  have hkind : k ∈ PieceKind.all := by cases k <;> decide
  simp [beyond, New, Has, hkind]

theorem New.mono (hp : h.New before p) (he : h.Extends h') : h'.New before p :=
  ⟨he.has hp.1, hp.2⟩

namespace Grown

theorem refl (h : Storage) : h.Grown h where
  kept := Extends.refl h
  inward hp := absurd hp.1 hp.2

/-- What was there before is read as before. -/
theorem agree (hg : before.Grown h) (hclosed : before.Closed) : Agree before.Has before h where
  closed := hclosed
  same := hg.kept.same

/-- What is new stays as it is when the storage grows. -/
theorem agree_new (hg : before.Grown h) (he : h.Extends h') : Agree (h.New before) h h' where
  closed := hg.inward
  same r hr := he.same r hr.1

end Grown

end Storage

namespace Storing

open Storage

variable {α β : Type} {k : PieceKind} {before h h' h'' : Storage}

/-- In the storage `h`, which has grown from `before`, `x` yields `a` and leaves `h'`. -/
structure Yields (x : Storing α) (before h : Storage) (a : α) (h' : Storage) : Prop where
  run : x h = (a, h')
  grown : before.Grown h'
  kept : h.Extends h'

theorem Yields.pure (hg : before.Grown h) (a : α) : Yields (pure a) before h a h :=
  ⟨rfl, hg, .refl h⟩

theorem Yields.get (hg : before.Grown h) : Yields get before h h h := ⟨rfl, hg, .refl h⟩

theorem Yields.bind {x : Storing α} {f : α → Storing β} {a : α} {b : β}
    (hx : x.Yields before h a h') (hf : (f a).Yields before h' b h'') :
    (x >>= f).Yields before h b h'' where
  run := by
    have hbind : (x >>= f) h = f (x h).1 (x h).2 := rfl
    rw [hbind, hx.run]
    exact hf.run
  grown := hf.grown
  kept := hx.kept.trans hf.kept

theorem Yields.map {x : Storing α} {a : α} (hx : x.Yields before h a h') (f : α → β) :
    (f <$> x).Yields before h (f a) h' where
  run := by
    have hmap : (f <$> x) h = (f (x h).1, (x h).2) := rfl
    rw [hmap, hx.run]
  grown := hx.grown
  kept := hx.kept

/-- A new piece refers to what its content refers to. -/
theorem exists_store (hg : before.Grown h) {c : k.Content}
    (hc : ∀ q ∈ k.refersTo c, h.New before q) :
    ∃ r h', (store k c).Yields before h r h' ∧ h'.read? r = some c ∧ h'.New before r.piece := by
  have he := h.extends_add c
  have hread := read?_add_self h c
  have hnew : ¬h.Has ⟨k, (h.contents k).length⟩ := Nat.lt_irrefl _
  refine ⟨_, _, ⟨rfl, ⟨hg.kept.trans he, ?_⟩, he⟩, hread, has_of_read? hread, ?_⟩
  · -- a piece from before refers to what it did, the new one to what its content does
    rintro p ⟨hp, hbefore⟩ q hq
    rcases has_add.1 hp with hp | rfl
    · rw [he.refersTo hp] at hq
      exact (hg.inward ⟨hp, hbefore⟩ q hq).mono he
    · have hrefers : (h.add k c).refersTo ⟨k, (h.contents k).length⟩ = k.refersTo c :=
        refersTo_of_read? hread
      rw [hrefers] at hq
      exact (hc q hq).mono he
  · exact fun hbefore => hnew (hg.kept.has hbefore)

/-! ## New descriptions -/

/-- Something that says `α` in a storage, by the pieces it refers to. -/
structure View (ρ α : Type) where
  pieces : ρ → List Piece
  value : Storage → ρ → α
  depends : ∀ {S h h'}, Agree S h h' → ∀ {r}, (∀ p ∈ pieces r, S p) → value h' r = value h r

namespace View

def named : View (Option (Ref .named)) (List NamedValue) where
  pieces r := r.toList.map Ref.piece
  value := Storage.named
  depends h₁ _ hr := by rw [Storage.named, Storage.named, h₁.find? hr]

def field : View FieldRecord Field := ⟨FieldRecord.pieces, Storage.field, Agree.field⟩

def instruction : View InstructionRecord Instruction :=
  ⟨InstructionRecord.pieces, Storage.instruction, Agree.instruction⟩

def content (k : PieceKind) : View k.Content k.Value :=
  ⟨k.refersTo, fun h => h.value k, Agree.value⟩

/-- A reference, which may be missing. -/
def ref (k : PieceKind) : View (Option (Ref k)) (Option k.Value) where
  pieces r := r.toList.map Ref.piece
  value h r := (h.find? r).map (h.value k)
  depends h₁ _ hr := h₁.find?_map hr (fun h => h.value k) fun _ => h₁.value

def list {ρ : Type} (v : View ρ α) : View (List ρ) (List α) where
  pieces rs := rs.flatMap v.pieces
  value h rs := rs.map (v.value h)
  depends h₁ _ hrs := List.map_congr_left fun r hr =>
    v.depends h₁ fun p hp => hrs p (List.mem_flatMap.2 ⟨r, hr, hp⟩)

variable {ρ : Type} {v : View ρ α} {a : α} {r : ρ}

/-- It says `a`, and refers to new pieces. -/
structure Tells (v : View ρ α) (before h : Storage) (a : α) (r : ρ) : Prop where
  value_eq : v.value h r = a
  new : ∀ p ∈ v.pieces r, h.New before p

theorem Tells.mono (hr : v.Tells before h a r) (hg : before.Grown h) (he : h.Extends h') :
    v.Tells before h' a r where
  value_eq := (v.depends (hg.agree_new he) hr.new).trans hr.value_eq
  new p hp := (hr.new p hp).mono he

theorem Tells.cons (hr : v.Tells before h a r) {as : List α} {rs : List ρ}
    (hrs : v.list.Tells before h as rs) : v.list.Tells before h (a :: as) (r :: rs) where
  value_eq := congrArg₂ List.cons hr.value_eq hrs.value_eq
  new := List.forall_mem_append.2 ⟨hr.new, hrs.new⟩

end View

/-- Storing a list, item by item. -/
theorem exists_mapM {ρ : Type} {v : View ρ β} {f : α → Storing ρ} {l : List α} {g : α → β}
    (hf : ∀ a ∈ l, ∀ {h}, before.Grown h →
      ∃ r h', (f a).Yields before h r h' ∧ v.Tells before h' (g a) r)
    (hg : before.Grown h) :
    ∃ rs h', (l.mapM f).Yields before h rs h' ∧ v.list.Tells before h' (l.map g) rs := by
  induction l generalizing h with
  | nil => exact ⟨[], h, .pure hg _, rfl, List.forall_mem_nil _⟩
  | cons a l ih =>
    obtain ⟨ha, hl⟩ := List.forall_mem_cons.1 hf
    obtain ⟨r, h₁, hfa, hr⟩ := ha hg
    obtain ⟨rs, h₂, hmap, hrs⟩ := ih hl hfa.grown
    -- what the first record says stays so while the others are stored
    refine ⟨r :: rs, h₂, ?_, (hr.mono hfa.grown hmap.kept).cons hrs⟩
    rw [List.mapM_cons]
    exact hfa.bind (hmap.bind (.pure hmap.grown _))

/-- Storing a list, if each item is described as it is. -/
theorem exists_mapM_self {ρ : Type} {v : View ρ α} {f : α → Storing ρ}
    (hf : ∀ a {h}, before.Grown h → ∃ r h', (f a).Yields before h r h' ∧ v.Tells before h' a r)
    (hg : before.Grown h) (l : List α) :
    ∃ rs h', (l.mapM f).Yields before h rs h' ∧ v.list.Tells before h' l rs := by
  have hmap := exists_mapM (g := id) (l := l) (fun a _ _ hg => hf a hg) hg
  rwa [List.map_id] at hmap

theorem exists_optionMapM {f : k.Value → Storing (Ref k)} {o : Option k.Value}
    (hf : ∀ a, o = some a →
      ∃ r h', (f a).Yields before h r h' ∧ (View.ref k).Tells before h' (some a) (some r))
    (hg : before.Grown h) :
    ∃ r h', (o.mapM f).Yields before h r h' ∧ (View.ref k).Tells before h' o r := by
  cases o with
  | none => exact ⟨none, h, .pure hg _, rfl, List.forall_mem_nil _⟩
  | some a =>
    obtain ⟨r, h', hfa, hr⟩ := hf a rfl
    exact ⟨some r, h', hfa.map some, hr⟩

/-- Storing the content that was just made. -/
theorem exists_bind_store {x : Storing k.Content} {a : k.Value}
    (hx : ∃ c h', x.Yields before h c h' ∧ (View.content k).Tells before h' a c) :
    ∃ r h', (x >>= store k).Yields before h r h' ∧
      (View.ref k).Tells before h' (some a) (some r) := by
  obtain ⟨c, h₁, hx, hc⟩ := hx
  obtain ⟨r, h₂, hstore, hread, hnew⟩ := exists_store hx.grown hc.new
  refine ⟨r, h₂, hx.bind hstore, ?_, List.forall_mem_singleton.2 hnew⟩
  have hvalue := (hc.mono hx.grown hstore.kept).value_eq
  simp only [View.ref, find?, Option.bind_some, hread, Option.map_some]
  exact congrArg some hvalue

theorem exists_storeNamed (hg : before.Grown h) (l : List NamedValue) :
    ∃ r h', (storeNamed l).Yields before h r h' ∧ View.named.Tells before h' l r := by
  unfold storeNamed
  split
  · rename_i hempty
    exact ⟨none, h, .pure hg _, (List.isEmpty_iff.1 hempty).symm, List.forall_mem_nil _⟩
  · obtain ⟨r, h', hstore, hread, hnew⟩ :=
      exists_store (k := .named) hg (c := l) (List.forall_mem_nil _)
    refine ⟨some r, h', hstore.map _, ?_, List.forall_mem_singleton.2 hnew⟩
    simp only [View.named, named, find?, Option.bind_some, hread, Option.getD_some]

theorem exists_describeField (hg : before.Grown h) (f : Field) :
    ∃ r h', (describeField f).Yields before h r h' ∧ View.field.Tells before h' f r := by
  obtain ⟨values, h', hstore, hvalues⟩ := exists_storeNamed hg f.values
  refine ⟨_, h', hstore.bind (.pure hstore.grown _), ?_, hvalues.new⟩
  have hnamed : h'.named values = f.values := hvalues.value_eq
  simp only [View.field, Storage.field, hnamed]

theorem exists_describeInstruction (hg : before.Grown h) (s : Instruction) :
    ∃ r h', (describeInstruction s).Yields before h r h' ∧ View.instruction.Tells before h' s r := by
  have hsome : ∀ fs, s.fieldList = some fs → ∃ r h',
      ((fs.mapM describeField) >>= store .fields).Yields before h r h' ∧
        (View.ref .fields).Tells before h' (some fs) (some r) := fun fs _ =>
    exists_bind_store (k := .fields)
      (exists_mapM_self (fun f _ hg => exists_describeField hg f) hg fs)
  obtain ⟨fields, h', hstore, hfields⟩ := exists_optionMapM (k := .fields) hsome hg
  refine ⟨_, h', hstore.bind (.pure hstore.grown _), ?_, hfields.new⟩
  have hlist : (h'.find? fields).map (List.map h'.field) = s.fieldList := hfields.value_eq
  simp only [View.instruction, Storage.instruction, hlist]

theorem exists_storePunctuation (hg : before.Grown h) (p : Punctuation) :
    ∃ r h', (store .punctuation p).Yields before h r h' ∧
      (View.ref .punctuation).Tells before h' (some p) (some r) :=
  exists_bind_store (k := .punctuation) (x := Pure.pure p)
    ⟨p, h, .pure hg p, rfl, List.forall_mem_nil _⟩

/-- The record of a machine, once its parts are there. -/
theorem exists_storeMachine (hg : before.Grown h) {m : MachineRecord}
    {specs : Option (List Instruction)} {equs : List NamedValue} {punctuation : Option Punctuation}
    (hspecs : (View.ref .instructions).Tells before h specs m.instructions)
    (hequs : View.named.Tells before h equs m.equs)
    (hpunctuation : (View.ref .punctuation).Tells before h punctuation m.punctuation) :
    ∃ r h', (store .machine m).Yields before h r h' ∧ (View.ref .machine).Tells before h'
      (some ⟨m.name, m.cellSize, specs, equs, punctuation⟩) (some r) := by
  refine exists_bind_store (k := .machine) (x := Pure.pure m) ⟨m, h, .pure hg m, ?_, ?_⟩
  · have hlist : (h.find? m.instructions).map (List.map h.instruction) = specs := hspecs.value_eq
    have hnamed : h.named m.equs = equs := hequs.value_eq
    have htable : (h.find? m.punctuation).map id = punctuation := hpunctuation.value_eq
    rw [Option.map_id_fun, id] at htable
    simp only [View.content, value, machine, hlist, hnamed, htable]
  · exact List.forall_mem_append.2
      ⟨List.forall_mem_append.2 ⟨hspecs.new, hequs.new⟩, hpunctuation.new⟩

/-- A new description says what it was made from. -/
theorem exists_describe (h : Storage) (m : Machine) :
    ∃ r h', (describe m).Yields h h r h' ∧ h'.machine? r = some m ∧ h'.New h r.piece := by
  have hsome : ∀ specs, m.instructionList = some specs → ∃ r h',
      ((specs.mapM describeInstruction) >>= store .instructions).Yields h h r h' ∧
        (View.ref .instructions).Tells h h' (some specs) (some r) := fun specs _ =>
    exists_bind_store (k := .instructions)
      (exists_mapM_self (fun s _ hg => exists_describeInstruction hg s) (.refl h) specs)
  obtain ⟨specs, h₁, h₁run, hspecs⟩ := exists_optionMapM (k := .instructions) hsome (.refl h)
  obtain ⟨equs, h₂, h₂run, hequs⟩ := exists_storeNamed h₁run.grown m.equs
  obtain ⟨punctuation, h₃, h₃run, hpunctuation⟩ := exists_optionMapM (k := .punctuation)
    (fun p _ => exists_storePunctuation h₂run.grown p) (o := m.punctuation) h₂run.grown
  obtain ⟨r, h₄, h₄run, hr⟩ := exists_storeMachine h₃run.grown
    (m := ⟨m.name, m.cellSize, specs, equs, punctuation⟩)
    ((hspecs.mono h₁run.grown h₂run.kept).mono h₂run.grown h₃run.kept)
    (hequs.mono h₂run.grown h₃run.kept) hpunctuation
  exact ⟨r, h₄, h₁run.bind (h₂run.bind (h₃run.bind h₄run)), hr.value_eq,
    hr.new _ List.mem_cons_self⟩

/-! ## Copies -/

variable (hclosed : before.Closed)
include hclosed

theorem exists_copyField (hg : before.Grown h) {f : FieldRecord}
    (hf : ∀ p ∈ f.pieces, before.Has p) :
    ∃ r h', (copyField f).Yields before h r h' ∧ View.field.Tells before h' (before.field f) r := by
  obtain ⟨values, h', hstore, hvalues⟩ := exists_storeNamed hg (h.named f.values)
  refine ⟨_, h', (Yields.get hg).bind (hstore.bind (.pure hstore.grown _)), ?_, hvalues.new⟩
  have hnamed : h'.named values = before.named f.values :=
    hvalues.value_eq.trans (View.named.depends (hg.agree hclosed) hf)
  simp only [View.field, Storage.field, hnamed]

theorem exists_copyInstruction (hg : before.Grown h) {s : InstructionRecord}
    (hs : ∀ p ∈ s.pieces, before.Has p) :
    ∃ r h', (copyInstruction s).Yields before h r h' ∧ View.instruction.Tells before h'
      { before.instruction s with fieldList := some (before.instruction s).fields } r := by
  have hagree := hg.agree hclosed
  have hpieces : ∀ f ∈ (before.find? s.fields).getD [], ∀ p ∈ f.pieces, before.Has p :=
    fun f hf p hp => hagree.refers_getD hs rfl p (List.mem_flatMap.2 ⟨f, hf, hp⟩)
  obtain ⟨fields, h', hstore, hfields⟩ := exists_bind_store (k := .fields)
    (exists_mapM (fun f hf _ hg => exists_copyField hclosed hg (hpieces f hf)) hg)
  rw [← hagree.find? hs] at hstore
  refine ⟨_, h', (Yields.get hg).bind (hstore.bind (.pure hstore.grown _)), ?_, hfields.new⟩
  have hlist : (h'.find? (some fields)).map (List.map h'.field) =
      some (((before.find? s.fields).getD []).map before.field) := hfields.value_eq
  simp only [View.instruction, Storage.instruction, Instruction.fields, hlist]
  cases before.find? s.fields with
  | none => rfl
  | some fs => rfl

/-- A copy says what the description said, and nothing else refers to its pieces. -/
theorem exists_snapshot {m : MachineRecord} (hm : ∀ p ∈ m.pieces, before.Has p) :
    ∃ r h', (snapshot m).Yields before before r h' ∧
      h'.machine? r = some (before.machine m).snapshot ∧ h'.New before r.piece := by
  have hg := Grown.refl before
  have hagree := hg.agree hclosed
  obtain ⟨hlists, hpunctuation⟩ := List.forall_mem_append.1 hm
  obtain ⟨hspecs, hequs⟩ := List.forall_mem_append.1 hlists
  have hpieces : ∀ s ∈ (before.find? m.instructions).getD [], ∀ p ∈ s.pieces, before.Has p :=
    fun s hs p hp => hagree.refers_getD hspecs rfl p (List.mem_flatMap.2 ⟨s, hs, hp⟩)
  obtain ⟨specs, h₁, h₁run, hspecs⟩ := exists_bind_store (k := .instructions)
    (exists_mapM (fun s hs _ hg => exists_copyInstruction hclosed hg (hpieces s hs)) hg)
  obtain ⟨equs, h₂, h₂run, hnamed⟩ := exists_storeNamed h₁run.grown (h₁.named m.equs)
  obtain ⟨punctuation, h₃, h₃run, htable⟩ :=
    exists_storePunctuation h₂run.grown ((h₂.find? m.punctuation).getD .standard)
  obtain ⟨r, h₄, h₄run, hr⟩ := exists_storeMachine h₃run.grown
    (m := { m with instructions := some specs, equs := equs, punctuation := some punctuation })
    ((hspecs.mono h₁run.grown h₂run.kept).mono h₂run.grown h₃run.kept)
    (hnamed.mono h₂run.grown h₃run.kept) htable
  refine ⟨r, h₄, (Yields.get hg).bind (h₁run.bind ((Yields.get h₁run.grown).bind
    (h₂run.bind ((Yields.get h₂run.grown).bind (h₃run.bind h₄run))))), ?_,
    hr.new _ List.mem_cons_self⟩
  -- the constants and the punctuation are read when the storage has grown
  have hequs : h₁.named m.equs = before.named m.equs :=
    View.named.depends (h₁run.grown.agree hclosed) hequs
  have hpunctuation := (h₂run.grown.agree hclosed).find? hpunctuation
  refine hr.value_eq.trans ?_
  simp only [hequs, hpunctuation, Storage.machine, Machine.snapshot, Machine.instructions,
    Machine.punctuationTable]
  cases before.find? m.instructions with
  | none => rfl
  | some specs =>
    simp only [Option.getD_some, Option.map_some, List.map_map]
    rfl

end Storing

end CellAsm
