-- SUMMARY: Nothing that is assembled or shown for an accepted machine stops with a fault.
import CellAsm.Listing
import CellAsm.Proofs.Origin
import CellAsm.Proofs.Placement

/-!
# No faults

A fault is a step without meaning: a missing element, a division by zero, a size
that can not be stored. Descriptions that an assembler accepts and statements that
were read leave no room for one. Whatever fails has a token to blame, and what is
assembled can be shown.
-/
namespace CellAsm

/-- An assembly for a valid machine never ends with a fault. -/
theorem SourceEnv.faultless_assemble (env : SourceEnv) (hm : env.machine.Valid)
    (name contents : Text) (start : UInt64) (e : Failure)
    (he : (env.assemble name contents start).result = .error e) : ∃ d, e = .diagnostic d := by
  obtain ⟨t, c, rfl, _⟩ := blamed_assemble hm he
  exact ⟨_, rfl⟩

/-! ## Showing the result -/

/-- The cells of a block make up its length, and are of a size that can be shown. -/
structure Block.Showable (b : Block) : Prop where
  length : b.length = b.cells.length * b.cellSize
  cellSize_nonneg : 0 ≤ b.cellSize
  cellSize_lt : b.cellSize < bitsLimit

theorem Block.Showable.bits {b : Block} (h : b.Showable) : ∃ text, b.bits = .ok text := by
  have hnonneg : 0 ≤ b.length := by
    rw [h.length]
    exact Int.mul_nonneg (Int.natCast_nonneg _) h.cellSize_nonneg
  have hstated : ¬ (b.length < 0 ∨ b.overstated) := by
    rintro (hneg | hover)
    · exact absurd hneg (Int.not_lt.2 hnonneg)
    · exact (of_decide_eq_true hover).2 h.length
  have hcell : ¬ (b.cells ≠ [] ∧ bitsLimit ≤ b.cellSize) := by
    rintro ⟨_, hvast⟩
    exact absurd h.cellSize_lt (Int.not_lt.2 hvast)
  rw [Block.bits, if_neg hstated, if_neg hcell]
  exact ⟨_, rfl⟩

theorem Listing.exists_line {b : Block} (h : b.Showable) (sources : Table Text) :
    ∃ text, Listing.line sources b = .ok text := by
  obtain ⟨bits, hbits⟩ := h.bits
  unfold Listing.line
  rw [hbits]
  split
  · exact ⟨_, rfl⟩
  · exact ⟨_, rfl⟩

/-- Whatever can be computed piece by piece can be written to any writer. -/
theorem Writer.exists_writeFrom (w : Writer) (activity : String) {pieces : List (Except Fault Text)}
    (h : ∀ piece ∈ pieces, ∃ text, piece = .ok text) (n : Int) :
    ∃ out, w.writeFrom activity n pieces = .ok out := by
  induction pieces generalizing n with
  | nil => exact ⟨_, rfl⟩
  | cons piece rest ih =>
    obtain ⟨⟨text, rfl⟩, hrest⟩ := List.forall_mem_cons.1 h
    obtain ⟨out, hout⟩ := ih hrest (n + 1)
    unfold writeFrom
    split
    · exact ⟨_, rfl⟩
    · rw [hout]
      exact ⟨_, rfl⟩

theorem Program.Placed.showable {m : Machine} (hm : m.Valid) {start : UInt64} {cs : List Statement}
    {spans : List Span} {p : Program} (h : p.Placed m start cs spans)
    (horder : p.InOrder m.cellSize start cs) : ∀ b ∈ p.blocks, b.Showable := by
  intro b hb
  obtain ⟨i, hi⟩ := List.mem_iff_getElem?.1 hb
  obtain ⟨_, _, _, _, _, _, htrace⟩ := h.trace_of_block hi
  obtain ⟨_, _, _, hblock⟩ := Code.of_block hm htrace.code
  have hcell : b.cellSize = m.cellSize := by rw [hblock]
  constructor
  · rw [horder.length b hb, hcell, Int.mul_comm]
  · rw [hcell]
    exact Int.le_of_lt hm.cellSize_pos
  · rw [hcell]
    exact Int.lt_of_le_of_lt hm.cellSize_le (by decide)

/-- Whatever is assembled for an accepted machine, from whatever source and files, there
is a diagnostic or a program, and the code of a program can be shown: the bits of each
block, and a listing with any sources on any writer. The scanner, the reader, the passes
and the packing index, cut and divide with operations that fault where there is no result,
and no such fault is ever reached. -/
theorem Assembler.assembleSource_faultless {a : Assembler} {m : Option Machine}
    (haccept : accept m = .ok a.machine) (library : Library) (name contents : Text)
    (start : UInt64) :
    (∃ d, (a.assembleSource library name contents start).2.result = .error (.diagnostic d)) ∨
    ∃ p, (a.assembleSource library name contents start).2.result = .ok p ∧
      (∀ b ∈ p.blocks, ∃ text, b.bits = .ok text) ∧
      ∀ w sources, ∃ out, Listing.write w p.blocks sources = .ok out := by
  have hm := valid_of_accept haccept
  cases hrun : (a.assembleSource library name contents start).2.result with
  | error e =>
    rw [assembleSource_snd] at hrun
    obtain ⟨d, rfl⟩ := SourceEnv.faultless_assemble _ hm name contents start e hrun
    exact .inl ⟨d, rfl⟩
  | ok p =>
    obtain ⟨s, cs, spans, h, hplaced⟩ := assembled_of_assembleSource hrun
    have hshow := hplaced.showable hm (hplaced.inOrder hm h.wellFormed h.labels)
    refine .inr ⟨p, rfl, fun b hb => (hshow b hb).bits, ?_⟩
    intro w sources
    apply w.exists_writeFrom
    intro piece hpiece
    obtain ⟨b, hb, rfl⟩ := List.mem_map.1 hpiece
    exact Listing.exists_line (hshow b hb) sources

/-- The code of the sample can be shown. -/
theorem Sample.faultless : ∃ p,
    (assembler.assembleSource library "sample" source 5).2.result = .ok p ∧
    p.blocks.length = 6 ∧ (∀ b ∈ p.blocks, ∃ text, b.bits = .ok text) ∧
    ∀ w sources, ∃ out, Listing.write w p.blocks sources = .ok out := by
  have hplain : (plainAssemble? assembler.machine "sample" source 5).map
      (fun p => p.blocks.length) = some 6 := by decide +kernel
  obtain ⟨p, hp, hlength⟩ := Option.map_eq_some_iff.1 hplain
  have hrun := Assembler.assembleSource_of_plainAssemble? library hp
  rcases Assembler.assembleSource_faultless accepted library "sample" source 5 with
    ⟨d, hd⟩ | ⟨p', hp', hshow⟩
  · cases hrun.symm.trans hd
  · cases hrun.symm.trans hp'
    exact ⟨p, hrun, hlength, hshow⟩

end CellAsm
