-- SUMMARY: Following a chain of constants finds its end, and fails where it has none.
import CellAsm.Proofs.Outcome
import CellAsm.Proofs.Table
import CellAsm.Symbol.Equ
import Mathlib.Data.List.Chain
import Mathlib.Data.List.Perm.Subperm
import Mathlib.Logic.Relation

/-!
# Chains of constants

A constant may stand for another, which may stand for a third. Such a chain ends in
a value that is no name, or it leads to a name that is not in the table, or it comes
back to a constant it has met before. Constants are followed for as many steps as the
table has entries and one more. The main statement says that this bound plays no part:
the outcome is decided by what the chain itself does.
-/
namespace CellAsm

/-- The computation fails with an error of the given class. -/
def FailsAs {α : Type} (k : ErrorClass) (r : Except Failure α) : Prop :=
  ∃ d, r = .error (.diagnostic d) ∧ d.cause.errorClass = k

theorem Failure.blame_inj {t t' : Token} {c c' : Cause} :
    Failure.blame t c = Failure.blame t' c' ↔ t = t' ∧ c = c' := by
  rw [blame, blame, diagnostic.injEq, Diagnostic.mk.injEq, Option.some_inj, and_comm]

theorem failsAs_blame {α : Type} {k : ErrorClass} {t : Token} {c : Cause} :
    FailsAs k (.error (.blame t c) : Except Failure α) ↔ c.errorClass = k := by
  constructor
  · rintro ⟨d, hd, hclass⟩
    cases hd
    exact hclass
  · exact fun hclass => ⟨_, rfl, hclass⟩

theorem not_failsAs_ok {α : Type} {k : ErrorClass} {a : α} :
    ¬ FailsAs k (.ok a : Except Failure α) := by
  rintro ⟨d, hd, _⟩
  cases hd

namespace Equ

/-- The constant `a` stands for the constant `b`. -/
def Refers (table : Table Token) (a b : Text) : Prop :=
  ∃ v, table.find? a = some v ∧ v.kind = .identifier ∧ v.symbol = b

/-- The chain from `a` on passes through `b`. -/
def LeadsTo (table : Table Token) (a b : Text) : Prop := Relation.ReflTransGen (Refers table) a b

/-- The chain ends in a value that is no name. -/
def EndsIn (table : Table Token) (a : Text) (v : Token) : Prop :=
  ∃ b, LeadsTo table a b ∧ table.find? b = some v ∧ v.kind ≠ .identifier

/-- The chain leads to a name that is not in the table. -/
def Dangles (table : Table Token) (a : Text) : Prop :=
  ∃ b, LeadsTo table a b ∧ table.find? b = none

/-- The chain enters a cycle. -/
def Cycles (table : Table Token) (a : Text) : Prop :=
  ∃ b, LeadsTo table a b ∧ Relation.TransGen (Refers table) b b

variable {table : Table Token} {name a b : Text} {v w : Token}

namespace Refers

theorem unique {c : Text} (h : Refers table a b) (h' : Refers table a c) : b = c := by
  obtain ⟨v, hv, _, rfl⟩ := h
  obtain ⟨w, hw, _, rfl⟩ := h'
  rw [Option.some.inj (hv.symm.trans hw)]

theorem mem_names (h : Refers table a b) : a ∈ table.names := by
  obtain ⟨v, hv, _⟩ := h
  exact Table.mem_names_of_find? hv

theorem leadsTo {c : Text} (h : Refers table a b) (hb : LeadsTo table b c) : LeadsTo table a c :=
  .head h hb

theorem endsIn (h : Refers table a b) (hb : EndsIn table b v) : EndsIn table a v := by
  obtain ⟨c, hc, hend⟩ := hb
  exact ⟨c, h.leadsTo hc, hend⟩

theorem dangles (h : Refers table a b) (hb : Dangles table b) : Dangles table a := by
  obtain ⟨c, hc, hnone⟩ := hb
  exact ⟨c, h.leadsTo hc, hnone⟩

end Refers

theorem endsIn_self (hfind : table.find? a = some v) (hkind : v.kind ≠ .identifier) :
    EndsIn table a v :=
  ⟨a, .refl, hfind, hkind⟩

/-! ## A chain does only one of three things -/

/-- No reference leads on from the name. -/
def Final (table : Table Token) (a : Text) : Prop := ∀ b, ¬ Refers table a b

theorem final_of_value (hfind : table.find? a = some v) (hkind : v.kind ≠ .identifier) :
    Final table a := by
  rintro b ⟨w, hw, hname, _⟩
  obtain rfl := Option.some.inj (hfind.symm.trans hw)
  exact hkind hname

theorem final_of_none (hfind : table.find? a = none) : Final table a := by
  rintro b ⟨w, hw, _⟩
  cases hfind.symm.trans hw

theorem Final.eq_of_leadsTo (h : Final table a) (hb : LeadsTo table a b) : a = b := by
  rcases Relation.ReflTransGen.cases_head hb with heq | ⟨c, hc, _⟩
  · exact heq
  · exact absurd hc (h c)

/-- A chain has at most one end. -/
theorem Final.unique {c : Text} (hb : Final table b) (hab : LeadsTo table a b) (hc : Final table c)
    (hac : LeadsTo table a c) : b = c := by
  have hright : Relator.RightUnique (Refers table) := fun _ _ _ h h' => h.unique h'
  rcases Relation.ReflTransGen.total_of_right_unique hright hab hac with hbc | hcb
  · exact hb.eq_of_leadsTo hbc
  · exact (hc.eq_of_leadsTo hcb).symm

/-- Every name that a cycle leads to is on it. -/
theorem cycle_of_leadsTo (hcycle : Relation.TransGen (Refers table) a a) (hb : LeadsTo table a b) :
    Relation.TransGen (Refers table) b b := by
  induction hb with
  | refl => exact hcycle
  | tail _ hstep ih =>
    obtain ⟨d, hd, hback⟩ := Relation.TransGen.head'_iff.1 ih
    obtain rfl := hstep.unique hd
    exact Relation.TransGen.tail' hback hstep

/-- A chain that enters a cycle has no end. -/
theorem Final.not_cycles (hb : Final table b) (hab : LeadsTo table a b) : ¬ Cycles table a := by
  rintro ⟨c, hac, hcycle⟩
  have hright : Relator.RightUnique (Refers table) := fun _ _ _ h h' => h.unique h'
  have hon : Relation.TransGen (Refers table) b b := by
    rcases Relation.ReflTransGen.total_of_right_unique hright hab hac with hbc | hcb
    · exact hb.eq_of_leadsTo hbc ▸ hcycle
    · exact cycle_of_leadsTo hcycle hcb
  obtain ⟨d, hd, _⟩ := Relation.TransGen.head'_iff.1 hon
  exact hb d hd

theorem EndsIn.unique (hv : EndsIn table a v) (hw : EndsIn table a w) : v = w := by
  obtain ⟨b, hb, hfind, hkind⟩ := hv
  obtain ⟨c, hc, hfind', hkind'⟩ := hw
  obtain rfl := (final_of_value hfind hkind).unique hb (final_of_value hfind' hkind') hc
  exact Option.some.inj (hfind.symm.trans hfind')

theorem EndsIn.not_dangles (hv : EndsIn table a v) : ¬ Dangles table a := by
  obtain ⟨b, hb, hfind, hkind⟩ := hv
  rintro ⟨c, hc, hnone⟩
  obtain rfl := (final_of_value hfind hkind).unique hb (final_of_none hnone) hc
  cases hfind.symm.trans hnone

theorem EndsIn.not_cycles (hv : EndsIn table a v) : ¬ Cycles table a := by
  obtain ⟨b, hb, hfind, hkind⟩ := hv
  exact (final_of_value hfind hkind).not_cycles hb

theorem Dangles.not_cycles (h : Dangles table a) : ¬ Cycles table a := by
  obtain ⟨b, hb, hnone⟩ := h
  exact (final_of_none hnone).not_cycles hb

/-! ## Long chains -/

/-- References lead on from `a` at least `steps` times, through constants of the table. -/
def Long (table : Table Token) (steps : Nat) (a : Text) : Prop :=
  ∃ more : List Text, (a :: more).IsChain (Refers table) ∧ more.length = steps ∧
    ∀ b ∈ a :: more, b ∈ table.names

theorem Refers.long {steps : Nat} (h : Refers table a b) (hb : Long table steps b) :
    Long table (steps + 1) a := by
  obtain ⟨more, hchain, hlength, hnames⟩ := hb
  refine ⟨b :: more, .cons_cons h hchain, congrArg Nat.succ hlength, ?_⟩
  exact List.forall_mem_cons.2 ⟨h.mem_names, hnames⟩

theorem leadsTo_of_mem_chain {more : List Text} (hchain : (a :: more).IsChain (Refers table)) :
    ∀ b ∈ a :: more, LeadsTo table a b := by
  have hpairs : (a :: more).Pairwise (Relation.ReflTransGen (Refers table)) :=
    List.isChain_iff_pairwise.1 (hchain.imp fun _ _ => .single)
  exact List.forall_mem_cons.2 ⟨.refl, (List.pairwise_cons.1 hpairs).1⟩

/-- A chain that is as long as the table meets a constant twice. -/
theorem Long.cycles {steps : Nat} (h : Long table steps a) (hsize : table.size ≤ steps) :
    Cycles table a := by
  obtain ⟨more, hchain, hlength, hnames⟩ := h
  have hleads := leadsTo_of_mem_chain hchain
  by_contra hnone
  have hpairs : (a :: more).Pairwise (Relation.TransGen (Refers table)) :=
    List.isChain_iff_pairwise.1 (hchain.imp fun _ _ => .single)
  -- Without a cycle all names would be different, and there are not that many.
  have hnodup : (a :: more).Nodup := by
    refine hpairs.imp_of_mem fun {b c} hb _ hbc heq => hnone ⟨b, hleads b hb, ?_⟩
    exact heq ▸ hbc
  have hle := (hnodup.subperm hnames).length_le
  rw [List.length_cons, Table.names, List.length_map] at hle
  unfold Table.size at hsize
  omega

/-! ## Following a chain -/

/-- What following the chain from `a` on gives, for the constant `name` and with a bound on
the steps. -/
inductive Followed (table : Table Token) (name : Text) (steps : Nat) (a : Text) :
    Except Failure Token → Prop
  | number {v : Token} (h : EndsIn table a v) (hkind : v.kind = .constant) :
      Followed table name steps a (.ok v)
  | other {v : Token} (h : EndsIn table a v) (hkind : v.kind ≠ .constant) :
      Followed table name steps a (.error (.blame v (.equNotNumeric name)))
  | dangling {v : Token} (h : Dangles table a) :
      Followed table name steps a (.error (.blame v (.equDangling name v.contents)))
  | unfinished {v : Token} (h : Long table steps a) :
      Followed table name steps a (.error (.blame v (.equCyclic name)))

theorem Followed.head {steps : Nat} {r : Except Failure Token} (h : Refers table a b)
    (hb : Followed table name steps b r) : Followed table name (steps + 1) a r := by
  cases hb with
  | number hend hkind => exact .number (h.endsIn hend) hkind
  | other hend hkind => exact .other (h.endsIn hend) hkind
  | dangling hnone => exact .dangling (h.dangles hnone)
  | unfinished hlong => exact .unfinished (h.long hlong)

/-- A value that is no name ends the chain, whatever the bound. -/
theorem followed_value {steps : Nat} (hfind : table.find? a = some v) (hkind : v.kind ≠ .identifier) :
    Followed table name steps a (chase table name steps v) := by
  have hend := endsIn_self hfind hkind
  unfold chase
  rw [if_neg hkind]
  split
  · rename_i hconstant
    exact .number hend hconstant
  · rename_i hconstant
    exact .other hend hconstant

theorem followed_chase {steps : Nat} (hfind : table.find? a = some v) :
    Followed table name steps a (chase table name steps v) := by
  by_cases hkind : v.kind = .identifier
  · have hstep : Refers table a v.symbol := ⟨v, hfind, hkind, rfl⟩
    induction steps generalizing a v with
    | zero =>
      rw [chase, if_pos hkind]
      exact .unfinished ⟨[], .singleton a, rfl, List.forall_mem_singleton.2 hstep.mem_names⟩
    | succ steps ih =>
      rw [chase, if_pos hkind]
      cases hnext : table.find? v.symbol with
      | none => exact .dangling (hstep.dangles ⟨_, .refl, hnext⟩)
      | some w =>
        apply Followed.head hstep
        by_cases hname : w.kind = .identifier
        · exact ih hnext hname ⟨w, hnext, hname, rfl⟩
        · exact followed_value hnext hname
  · exact followed_value hfind hkind

theorem followed_follow (hname : name ∈ table.names) :
    Followed table name (table.size + 1) name (follow table name) := by
  cases hfind : table.find? name with
  | none => exact absurd hname (Table.find?_eq_none_iff.1 hfind)
  | some v =>
    rw [follow, hfind]
    exact followed_chase hfind

/-- A chain that ends in a number is followed to it, however long it is. -/
theorem follow_of_endsIn (hend : EndsIn table name v) (hkind : v.kind = .constant)
    (hname : name ∈ table.names) : follow table name = .ok v := by
  have hfollowed := followed_follow hname
  generalize follow table name = r at hfollowed
  cases hfollowed with
  | number h _ => rw [h.unique hend]
  | other h hne => exact absurd (h.unique hend ▸ hkind) hne
  | dangling h => exact absurd h hend.not_dangles
  | unfinished h => exact absurd (h.cycles (Nat.le_succ _)) hend.not_cycles

/-- Following a constant is exact. It gives a number if and only if the chain of references
ends in that number. It fails as a cycle if and only if the chain enters one, or leads to a
name that is not in the table, and the message tells the two apart. It fails as an invalid
operand if and only if the chain ends in a value that is neither a name nor a number. -/
theorem follow_exact (hname : name ∈ table.names) :
    (∀ v, follow table name = .ok v ↔ EndsIn table name v ∧ v.kind = .constant) ∧
    (FailsAs .equCycle (follow table name) ↔ Cycles table name ∨ Dangles table name) ∧
    ((∃ t, follow table name = .error (.blame t (.equCyclic name))) ↔ Cycles table name) ∧
    (FailsAs .operand (follow table name) ↔ ∃ v, EndsIn table name v ∧ v.kind ≠ .constant) := by
  have hfollowed := followed_follow hname
  generalize follow table name = r at hfollowed
  cases hfollowed with
  | @number v hend hkind =>
    have hunique (w : Token) (hw : EndsIn table name w) : w = v := hw.unique hend
    refine ⟨fun w => ⟨?_, ?_⟩, ?_, ?_, ?_⟩
    · rintro ⟨⟩
      exact ⟨hend, hkind⟩
    · rintro ⟨hw, _⟩
      rw [hunique w hw]
    · simp [not_failsAs_ok, hend.not_cycles, hend.not_dangles]
    · simp [hend.not_cycles]
    · simp only [not_failsAs_ok, false_iff, not_exists, not_and, not_not]
      intro w hw
      rw [hunique w hw, hkind]
  | @other v hend hkind =>
    have hunique (w : Token) (hw : EndsIn table name w) : w = v := hw.unique hend
    refine ⟨fun w => ⟨?_, ?_⟩, ?_, ?_, ?_⟩
    · rintro ⟨⟩
    · rintro ⟨hw, hconstant⟩
      exact absurd (hunique w hw ▸ hconstant) hkind
    · simp [failsAs_blame, Cause.errorClass, hend.not_cycles, hend.not_dangles]
    · simp [Failure.blame_inj, hend.not_cycles]
    · simp only [failsAs_blame, Cause.errorClass, true_iff]
      exact ⟨v, hend, hkind⟩
  | dangling hnone =>
    have hopen (w : Token) : ¬ EndsIn table name w := fun hw => hw.not_dangles hnone
    simp [failsAs_blame, Failure.blame_inj, Cause.errorClass, hopen, hnone, hnone.not_cycles]
  | unfinished hlong =>
    have hcycle := hlong.cycles (Nat.le_succ _)
    have hopen (w : Token) : ¬ EndsIn table name w := fun hw => hw.not_cycles hcycle
    simp [failsAs_blame, Failure.blame_inj, Cause.errorClass, hopen, hcycle]

end Equ

namespace Sample

/-- A constant that stands for another. -/
def reference (name : Text) : Token where
  kind := .identifier
  contents := name

/-- A chain that meets every constant of the table before it ends. -/
def chained : Table Token where
  entries := [("a", reference "b"), ("b", reference "c"), ("c", Equ.literal 7)]
  distinct := by decide +kernel

/-- Two constants that stand for each other, one that stands for no constant, and a string. -/
def broken : Table Token where
  entries := [("p", reference "q"), ("q", reference "p"), ("d", reference "x"),
    ("s", { kind := .string })]
  distinct := by decide +kernel

theorem chained_and_broken : ("a" : Text) ∈ chained.names ∧ ("p" : Text) ∈ broken.names ∧
    Equ.EndsIn chained "a" (Equ.literal 7) ∧ Equ.Cycles broken "p" ∧
    ¬ Equ.Cycles broken "d" ∧ Equ.Dangles broken "d" ∧
    ∃ v, Equ.EndsIn broken "s" v ∧ v.kind ≠ .constant := by
  have hchained := Equ.follow_exact (show ("a" : Text) ∈ chained.names by decide)
  have hcycle := Equ.follow_exact (show ("p" : Text) ∈ broken.names by decide)
  have hdangling := Equ.follow_exact (show ("d" : Text) ∈ broken.names by decide)
  have hstring := Equ.follow_exact (show ("s" : Text) ∈ broken.names by decide)
  have hcycles : ¬ Equ.Cycles broken "d" := by
    intro h
    obtain ⟨t, ht⟩ := hdangling.2.2.1.2 h
    have hfollow : Equ.follow broken "d" =
        .error (.blame (reference "x") (.equDangling "d" "x")) := by decide +kernel
    cases hfollow.symm.trans ht
  refine ⟨by decide, by decide, ((hchained.1 _).1 (by decide +kernel)).1, ?_, hcycles, ?_, ?_⟩
  · exact hcycle.2.2.1.1 ⟨reference "p", by decide +kernel⟩
  · have hfails : FailsAs .equCycle (Equ.follow broken "d") :=
      ⟨⟨.equDangling "d" "x", reference "x"⟩, by decide +kernel, rfl⟩
    exact (hdangling.2.1.1 hfails).resolve_left hcycles
  · exact hstring.2.2.2.1 ⟨⟨.equNotNumeric "s", some { kind := .string }⟩, by decide +kernel, rfl⟩

end Sample

end CellAsm
