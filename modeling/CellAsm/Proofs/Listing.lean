-- SUMMARY: A listing shows the source line that an instruction comes from.
import CellAsm.Proofs.ReadBack
import CellAsm.Proofs.Safety

/-!
# Listed lines

The lexer counts lines while it walks over the characters of a text. A listing finds the
line of a position by splitting the bytes of the whole text, once the carriage returns in
front of its line ends are gone. Both mean the line around the position: a character has
no byte in common with a line end, and what is lost of a line would be trimmed anyway.
-/
namespace CellAsm

/-! ## Lines of a text -/

namespace Text

/-- The line around the place behind `o` bytes, from the last line end before it to the next
one behind it, or to the ends of the text. -/
def lineAround (t : Text) (o : Nat) : Text := lastLine (t.take o) ++ (t.drop o).takeWhile (· != 10)

theorem length_splitAtByte (b : UInt8) (t : Text) : (t.splitAtByte b).length = t.count b + 1 := by
  induction t with
  | nil => rfl
  | cons c t ih =>
    rw [splitAtByte_eq_splitOn] at ih ⊢
    rw [List.splitOn_cons_eq_if_modifyHead, List.count_cons]
    split
    · rw [List.length_cons, ih]
    · rw [List.length_modifyHead, ih, Nat.add_zero]

theorem head?_splitAtByte (b : UInt8) (t : Text) :
    (t.splitAtByte b).head? = some (t.takeWhile (· != b)) := by
  induction t with
  | nil => rfl
  | cons c t ih =>
    rw [splitAtByte_eq_splitOn] at ih ⊢
    rw [List.splitOn_cons_eq_if_modifyHead]
    by_cases hc : c = b
    · rw [if_pos (beq_iff_eq.2 hc), List.takeWhile_cons_of_neg (by simp [hc])]
      rfl
    · rw [if_neg (mt beq_iff_eq.1 hc), List.takeWhile_cons_of_pos (by simp [hc]),
        List.head?_modifyHead, ih]
      rfl

/-- The piece of a text that is split at its line ends, by how many of them stand before it. -/
theorem getElem?_splitAtByte_append (front back : Text) :
    ((front ++ back).splitAtByte 10)[front.count 10]? =
      some (front.lastLine ++ back.takeWhile (· != 10)) := by
  induction front using List.reverseRecOn generalizing back with
  | nil =>
    rw [List.nil_append, List.count_nil, ← List.head?_eq_getElem?]
    exact head?_splitAtByte 10 back
  | append_singleton front c ih =>
    rw [List.append_assoc, List.singleton_append]
    by_cases hc : c = 10
    · subst hc
      have hcount : (front ++ [10]).count 10 = (splitAtByte 10 front).length := by
        rw [length_splitAtByte, List.count_append]
        rfl
      rw [splitAtByte_eq_splitOn, List.splitOn_append_cons_self, ← splitAtByte_eq_splitOn,
        ← splitAtByte_eq_splitOn, hcount, List.getElem?_append_right (Nat.le_refl _), Nat.sub_self,
        ← List.head?_eq_getElem?, head?_splitAtByte, lastLine_append_newline, List.nil_append]
    · have hother : (10 : UInt8) ∉ [c] := mt List.mem_singleton.1 (Ne.symm hc)
      rw [List.count_append, List.count_eq_zero.2 hother, Nat.add_zero, ih,
        lastLine_append front hother, List.append_assoc, List.takeWhile_cons_of_pos (by simp [hc])]
      rfl

theorem getElem?_splitAtByte_lineAround (t : Text) (o : Nat) :
    (t.splitAtByte 10)[(t.take o).count 10]? = some (t.lineAround o) := by
  have h := getElem?_splitAtByte_append (t.take o) (t.drop o)
  rw [List.take_append_drop] at h
  exact h

/-! ## Carriage returns -/

/-- A blank at the end is trimmed. -/
theorem trim_concat {c : UInt8} (hc : c.toNat < 0x80) (hblank : isBlank (Glyph.ofAscii c).char)
    (t : Text) : trim (t ++ [c]) = t.trim := by
  have hglyphs : glyphs (t ++ [c]) = t.glyphs ++ [Glyph.ofAscii c] := by
    rw [glyphs_append_cons hc, glyphs]
  have hdrop (gs : List Glyph) : (Glyph.ofAscii c :: gs).dropWhile (fun g => isBlank g.char) =
      gs.dropWhile (fun g => isBlank g.char) := List.dropWhile_cons_of_pos hblank
  unfold trim
  dsimp only
  rw [hglyphs, List.dropWhile_append]
  split
  · rename_i hempty
    rw [List.isEmpty_iff.1 hempty, hdrop]
    rfl
  · rw [List.reverse_append, List.reverse_singleton, List.singleton_append, hdrop]

end Text

namespace Listing

/-- The line as it is split off once carriage returns in front of line ends are gone. -/
def Chomps (line chomped : Text) : Prop := line = chomped ∨ line = chomped ++ [13]

theorem Chomps.trim_eq {line chomped : Text} (h : Chomps line chomped) :
    chomped.trim = line.trim := by
  rcases h with rfl | rfl
  · rfl
  · exact (Text.trim_concat (by decide) (by decide) chomped).symm

theorem Chomps.cons {line chomped : Text} (h : Chomps line chomped) (b : UInt8) :
    Chomps (b :: line) (b :: chomped) := by
  rcases h with rfl | rfl
  · exact .inl rfl
  · exact .inr rfl

theorem forall₂_chomps (t : Text) :
    List.Forall₂ Chomps (t.splitAtByte 10) ((unixLines t).splitAtByte 10) := by
  fun_induction unixLines t with
  | case1 rest ih => exact .cons (.inr rfl) ih
  | case2 b rest _ ih =>
    by_cases hb : b = 10
    · rw [Text.splitAtByte, Text.splitAtByte, if_pos hb, if_pos hb]
      exact .cons (.inl rfl) ih
    · rw [Text.splitAtByte, Text.splitAtByte, if_neg hb, if_neg hb]
      generalize Text.splitAtByte 10 rest = pieces at ih
      generalize Text.splitAtByte 10 (unixLines rest) = chomped at ih
      cases ih with
      | nil => exact .cons (.inl rfl) .nil
      | cons hpiece hpieces => exact .cons (hpiece.cons b) hpieces
  | case3 => exact .cons (.inl rfl) .nil

/-! ## The line of a position -/

variable {file src : Text} {sources : Table Text}

theorem sourceLine_of_getElem? {p : Position} {i : Nat} {line : Text}
    (hsource : sources.find? p.file = some src) (hp : p.line = i + 1)
    (hline : ((unixLines src).splitAtByte 10)[i]? = some line) :
    sourceLine sources p = line.trim := by
  obtain ⟨hlt, rfl⟩ := List.getElem?_eq_some_iff.1 hline
  have hindex : (p.line - 1).toNat = i := by omega
  simp only [sourceLine, hsource]
  rw [dif_pos ⟨by omega, by rw [hp]; exact Int.ofNat_le.2 hlt⟩]
  simp only [List.get_eq_getElem, hindex]
  rfl

theorem sourceLine_behind (hsource : sources.find? file = some src) (o : Nat) :
    sourceLine sources ((Place.behind (src.take o)).position file) = (src.lineAround o).trim := by
  obtain ⟨chomped, hchomped, hchomps⟩ :=
    forall₂_getElem?_left (forall₂_chomps src) (src.getElem?_splitAtByte_lineAround o)
  rw [sourceLine_of_getElem? hsource ?_ hchomped, hchomps.trim_eq]
  simp only [Place.position, Place.behind]
  omega

theorem sourceLine_of_on (hsource : sources.find? file = some src) {c : Cursor} (hc : c.On src) :
    sourceLine sources (c.place.position file) = (src.lineAround c.place.offset).trim := by
  have h := sourceLine_behind hsource c.place.offset
  rw [← hc.place_eq] at h
  exact h

theorem sourceLine_of_standsAt (hsource : sources.find? file = some src) {lx : Lexicon}
    {p : Position} (h : lx.StandsAt file src p) : sources.find? p.file = some src ∧
      sourceLine sources p = (src.lineAround p.offset.toNat).trim := by
  obtain ⟨d, hd, rfl⟩ := h.exists_on
  exact ⟨hsource, sourceLine_of_on hsource hd⟩

/-- How a line of a listing ends that shows a source line. -/
def shown (line : Text) : Text := (if line = [] then [] else '\t'.toUInt8 :: line) ++ ['\n'.toUInt8]

theorem shown_suffix_line {b : Block} {text : Text} (h : line sources b = .ok text) :
    shown (sourceLine sources b.source.position) <:+ text := by
  -- whatever the bits are, the source line and the line end come last
  have hend (address cells bits source : Text) :
      source ++ ['\n'.toUInt8] <:+ Text.join [address, " ", cells, bits, source, "\n"] := by
    refine ⟨Text.join [address, " ", cells, bits], ?_⟩
    simp only [Text.join, List.flatten_cons, List.flatten_nil, List.append_assoc, List.append_nil]
    rfl
  unfold line at h
  dsimp only at h
  split at h
  · cases h
    exact hend ..
  · obtain ⟨bits, _, h⟩ := bind_eq_ok.1 h
    cases h
    exact hend ..

/-- Whatever text is scanned under whatever name: where a listing has the text under that
name, it shows with every instruction whose source is a token of the text the line that the
token is on, without the blanks around it. -/
theorem sourceLine_scanned (hsource : sources.find? file = some src) (lx : Lexicon) {n i j : Nat}
    {x : Lexed} (hscanned : (Scanner.ofText lx file src).Calls n x i j) {b : Block}
    (hb : b.source = x.token) :
    ∃ o : Nat, b.source.position.offset = o ∧ o ≤ src.length ∧
      sourceLine sources b.source.position = (src.lineAround o).trim ∧
      ∀ text, line sources b = .ok text → shown (src.lineAround o).trim <:+ text := by
  obtain ⟨_, d, hd, hposition⟩ := lx.on_next file (lx.on_cursorAfter file src n)
  have hplace : b.source.position = d.place.position file := by
    rw [hb, hscanned.eq_call]
    exact hposition
  have hline : sourceLine sources b.source.position = (src.lineAround d.place.offset).trim := by
    rw [hplace, sourceLine_of_on hsource hd]
  refine ⟨d.place.offset, ?_, hd.offset_le, hline, ?_⟩
  · rw [hplace]
    rfl
  · intro text htext
    rw [← hline]
    exact shown_suffix_line htext

end Listing

namespace Sample

/-- Three lines, of which the first ends with a carriage return and the second with two. The
second has a byte that is no character, and the last is not ended. -/
def mixedEnds : Text := Text.ofString "one\r\n\ttwo;" ++ 0xFF :: Text.ofString "\r\r\nthree"

def mixedFiles : Table Text := .ofList [("f", mixedEnds)]

/-- An instruction on the second line. -/
def listed : Block where
  source := ((Lexicon.ofPunctuation .standard).call "f" mixedEnds 2).token

theorem listed_line : ∃ (o : Nat) (text : Text), listed.source.contents = Text.ofString "two" ∧
    listed.source.position.offset = o ∧ o ≤ mixedEnds.length ∧
    Listing.sourceLine mixedFiles listed.source.position = (mixedEnds.lineAround o).trim ∧
    (mixedEnds.lineAround o).trim = Text.ofString "two;" ++ [0xFF] ∧
    Listing.line mixedFiles listed = .ok text ∧
    Listing.shown (mixedEnds.lineAround o).trim <:+ text := by
  obtain ⟨hcontents, hoffset, hline, htext⟩ : listed.source.contents = Text.ofString "two" ∧
      listed.source.position.offset = 6 ∧
      (mixedEnds.lineAround 6).trim = Text.ofString "two;" ++ [0xFF] ∧
      (Listing.line mixedFiles listed).toOption =
        some (Text.ofString "00000000 \ttwo;" ++ [0xFF, 10]) := by decide +kernel
  have hsource : mixedFiles.find? "f" = some mixedEnds := by
    rw [mixedFiles, Table.ofList, List.foldl_cons, List.foldl_nil, Table.find?_insert, if_pos rfl]
  have hscanned := Scanner.calls_ofText (.ofPunctuation .standard) "f" mixedEnds 2
  obtain ⟨o, ho, hle, hshown, hsuffix⟩ :=
    Listing.sourceLine_scanned hsource _ hscanned (show listed.source = _ from rfl)
  obtain rfl : o = 6 := by omega
  have hlisted := toOption_eq_some.1 htext
  exact ⟨6, _, hcontents, ho, hle, hshown, hline, hlisted, hsuffix _ hlisted⟩

end Sample

/-! ## Programs -/

/-- The source of a block is the keyword of its statement. -/
theorem Program.InOrder.exists_keyword {cellSize : Int} {start : UInt64} {cs : List Statement}
    {p : Program} (h : p.InOrder cellSize start cs) {b : Block} (hb : b ∈ p.blocks) :
    ∃ c ∈ cs, b.source = c.keyword := by
  obtain ⟨i, hi⟩ := List.mem_iff_getElem?.1 hb
  obtain ⟨r, hr, hsource, _⟩ := forall₂_getElem?_right h.blocks hi
  obtain ⟨c, hc, hrc⟩ := forall₂_getElem?_right h.statements hr
  rw [hrc] at hsource
  exact ⟨c, List.mem_of_getElem? hc, hsource⟩

namespace Assembler

variable {a : Assembler} {m : Option Machine} {library : Library} {name contents : Text}
  {start : UInt64} {p : Program}

/-- A block comes from a place of the program or of a file that it included. -/
theorem stands_source (haccept : accept m = .ok a.machine)
    (hrun : (a.assembleSource library name contents start).2.result = .ok p) {b : Block}
    (hb : b ∈ p.blocks) : SourceEnv.Stands ⟨a.machine, some library⟩ name contents
      (a.assembleSource library name contents start).2.log b.source.position := by
  obtain ⟨s, cs, spans, h, hplaced⟩ := assembled_of_assembleSource hrun
  have horder := hplaced.inOrder (valid_of_accept haccept) h.wellFormed h.labels
  rw [h.replaced] at horder
  obtain ⟨c, hc, hsource⟩ := horder.of_replaceIn.exists_keyword hb
  have hparse := SourceEnv.stopped_parse ⟨a.machine, some library⟩ name contents
  rw [h.read] at hparse
  rw [hsource, assembleSource_snd]
  apply SourceEnv.stands_mono _ name contents (SourceEnv.log_subset_of_parse start h.read)
  exact (hparse.of_ok.statements c hc).keyword

theorem exists_line (haccept : accept m = .ok a.machine)
    (hrun : (a.assembleSource library name contents start).2.result = .ok p) {b : Block}
    (hb : b ∈ p.blocks) (sources : Table Text) : ∃ text, Listing.line sources b = .ok text := by
  obtain ⟨s, cs, spans, h, hplaced⟩ := assembled_of_assembleSource hrun
  have hm := valid_of_accept haccept
  have hshow := hplaced.showable hm (hplaced.inOrder hm h.wellFormed h.labels)
  exact Listing.exists_line (hshow b hb) sources

/-- Where a listing has the texts of a program and of the files that it includes, it shows
with each instruction the line that the instruction comes from. -/
theorem assembleSource_listed (haccept : accept m = .ok a.machine)
    (hrun : (a.assembleSource library name contents start).2.result = .ok p)
    {sources : Table Text} (hname : sources.find? name = some contents)
    (hincluded : ∀ file source text,
      .included file source ∈ (a.assembleSource library name contents start).2.log →
      library.read file = .ok text → sources.find? file = some text) :
    ∀ b ∈ p.blocks, ∃ src text, sources.find? b.source.position.file = some src ∧
      Listing.line sources b = .ok text ∧
      Listing.shown (src.lineAround b.source.position.offset.toNat).trim <:+ text := by
  intro b hb
  obtain ⟨text, htext⟩ := exists_line haccept hrun hb sources
  have hshown := Listing.shown_suffix_line htext
  rcases stands_source haccept hrun hb with hmain | ⟨file, source, lib, src, hlog, hlib, hread, h⟩
  · obtain ⟨hsource, hline⟩ := Listing.sourceLine_of_standsAt hname hmain
    exact ⟨contents, text, hsource, htext, hline ▸ hshown⟩
  · cases hlib
    obtain ⟨hsource, hline⟩ :=
      Listing.sourceLine_of_standsAt (hincluded file source src hlog hread) h
    exact ⟨src, text, hsource, htext, hline ▸ hshown⟩

end Assembler

end CellAsm
