-- SUMMARY: Every diagnostic points to a place in the source or in an included file.
import CellAsm.Proofs.Blame
import CellAsm.Proofs.Coverage
import CellAsm.Proofs.Moments
import CellAsm.Proofs.Rejection

/-!
# Where diagnostics point to

A token that was scanned is located where the lexer stood. Reading keeps such tokens,
puts them into templates and takes them out again, and the passes behind it replace
their contents but not their positions. The values of the constants of a machine have no
position, but none of them is ever blamed. So every failure points to the program or to a
file it includes, which the log of the assembly names.
-/
namespace CellAsm

/-! ## Where the lexer stands -/

/-- What ends a string with an unknown escape is the backslash of it. -/
theorem stringBody_backslash (gs : List Glyph) {c : Option Char}
    (h : (stringBody gs).ending = .badEscape c) : ∃ n g,
      (stringBody gs).taken = n + (if c.isSome then 2 else 1) ∧ gs[n]? = some g ∧
      g.char = '\\' := by
  fun_induction stringBody gs with
  | case1 => cases h
  | case2 => cases h
  | case3 => cases h
  | case4 g _ _ hescape =>
    cases h
    exact ⟨0, g, rfl, rfl, hescape⟩
  | case5 => cases h
  | case6 => cases h
  | case7 => cases h
  | case8 g e rest _ _ _ d _ ih =>
    obtain ⟨n, b, htaken, hb, hchar⟩ := ih h
    refine ⟨n + 2, b, ?_, hb, hchar⟩
    simp only [StringBody.cons, htaken]
    omega
  | case9 g e rest _ _ hescape =>
    cases h
    exact ⟨0, g, rfl, rfl, hescape⟩
  | case10 g e rest _ _ _ ih =>
    obtain ⟨n, b, htaken, hb, hchar⟩ := ih h
    refine ⟨n + 1, b, ?_, hb, hchar⟩
    simp only [StringBody.cons, htaken]
    omega

namespace Lexicon

/-- A lexeme is located where it starts, or at the backslash of an unknown escape. -/
theorem lexeme_lead_or (lx : Lexicon) (g : Glyph) (rest : List Glyph) :
    (lx.lexeme g rest).lead = 0 ∨ ∃ c b, (lx.lexeme g rest).cause = some (.illegalEscape c) ∧
      (g :: rest)[(lx.lexeme g rest).lead]? = some b ∧ b.char = '\\' := by
  apply lx.lexeme_cases (P := fun x => x.lead = 0 ∨ ∃ c b, x.cause = some (.illegalEscape c) ∧
    (g :: rest)[x.lead]? = some b ∧ b.char = '\\')
  · exact fun _ _ => .inl rfl
  · intro _
    unfold stringLexeme
    dsimp only
    split
    · exact .inl rfl
    · exact .inl rfl
    · rename_i c hending
      obtain ⟨n, b, htaken, hb, hchar⟩ := stringBody_backslash rest hending
      have hlead : 1 + (stringBody rest).taken - (if c.isSome then 2 else 1) = n + 1 := by omega
      refine .inr ⟨c, b, rfl, ?_, hchar⟩
      dsimp only
      rw [hlead]
      exact hb
  · intro _
    unfold directiveLexeme
    dsimp only
    split
    · exact .inl rfl
    · exact .inl rfl
  · exact .inl rfl
  · unfold nameLexeme
    dsimp only
    split
    · exact .inl rfl
    · exact .inl rfl
  · exact .inl rfl

/-- Scanning gets as far as the call behind `n` others: none of those fails. -/
def Reaches (lx : Lexicon) (file src : Text) (n : Nat) : Prop :=
  ∀ k < n, ∃ x a b, (Scanner.ofText lx file src).Calls k x a b ∧ x.cause = none

/-- The positions at which the lexer stands while it scans a file: where its tokens start,
and the backslashes of escapes that it does not know. -/
inductive StandsAt (lx : Lexicon) (file src : Text) : Position → Prop
  | start {n : Nat} (hreached : lx.Reaches file src n) {s t : Scanner}
      (hafter : (Scanner.ofText lx file src).after n = .ok s) (hblanks : s.skipBlanks = .ok t) :
      StandsAt lx file src (t.place.position file)
  | escape {n : Nat} (hreached : lx.Reaches file src n) {x : Lexed} {a b : Nat}
      (hcall : (Scanner.ofText lx file src).Calls n x a b) {c : Option Char} {o : Nat}
      (hcause : x.cause = some (.illegalEscape c))
      (hposition : x.token.position = (Place.behind (src.take o)).position file)
      (hbackslash : src[o]? = some 92) :
      StandsAt lx file src x.token.position

end Lexicon

/-- The byte behind a cursor is the first of the next glyph. -/
theorem Cursor.On.getElem?_offset {src : Text} {c : Cursor} (h : c.On src) {g : Glyph}
    {rest : List Glyph} (hrest : c.rest = g :: rest) : src[c.place.offset]? = g.bytes.head? := by
  obtain ⟨before, hsrc, hoffset, _⟩ := h.split
  have hpos := Text.length_bytes_pos (h.mem_glyphs g (hrest ▸ List.mem_cons_self))
  obtain ⟨b, bs, hbytes⟩ := List.exists_cons_of_length_pos hpos
  rw [hrest, List.flatMap_cons, hbytes] at hsrc
  rw [hoffset, hsrc, List.getElem?_append_right (Nat.le_refl _), Nat.sub_self, hbytes]
  rfl

namespace Lexicon

variable {lx : Lexicon} {file src : Text}

/-- Every token is located where the lexer stands. -/
theorem standsAt_call {n : Nat} (hreached : lx.Reaches file src n) :
    lx.StandsAt file src (lx.call file src n).token.position := by
  have hon := on_cursorAfter lx file src n
  have hfront : (lx.front (lx.cursorAfter file src n)).On src := hon.skip _
  have hstart : lx.StandsAt file src ((lx.front (lx.cursorAfter file src n)).place.position file) :=
    .start hreached (Scanner.after_ofText lx file src n) (Scanner.skipBlanks_of_on lx file hon)
  cases hrest : (lx.front (lx.cursorAfter file src n)).rest with
  | nil =>
    rw [call, next_of_nil hrest]
    exact hstart
  | cons g rest =>
    have hcall : lx.call file src n = _ := next_of_cons hrest
    rcases lx.lexeme_lead_or g rest with hlead | ⟨c, b, hcause, hb, hchar⟩
    · rw [hcall, hlead]
      exact hstart
    · -- an escape: the cursor in front of the backslash is further on
      have hescape := hfront.skip (lx.lexeme g rest).lead
      have hdrop : ((lx.front (lx.cursorAfter file src n)).skip (lx.lexeme g rest).lead).rest =
          b :: (g :: rest).drop ((lx.lexeme g rest).lead + 1) := by
        rw [Cursor.skip, hrest]
        exact List.drop_eq_getElem?_toList_append .. |>.trans (by rw [hb]; rfl)
      have hbytes : b = Glyph.ofChar '\\' := by
        have hmem := hescape.mem_glyphs b (hdrop ▸ List.mem_cons_self)
        have hglyph := Text.eq_ofChar_of_mem_glyphs hmem (by rw [hchar]; decide)
        rw [hchar] at hglyph
        exact hglyph
      refine .escape hreached (Scanner.calls_ofText lx file src n) (c := c) ?_ ?_
        (hescape.getElem?_offset hdrop |>.trans ?_)
      · rw [Scan.lexed, hcall]
        exact hcause
      · rw [Scan.lexed, hcall]
        exact congrArg (·.position file) hescape.place_eq
      · rw [hbytes]
        rfl

theorem StandsAt.exists_on {p : Position} (h : lx.StandsAt file src p) :
    ∃ d : Cursor, d.On src ∧ p = d.place.position file := by
  cases h with
  | @start n _ s t hafter hblanks =>
    have hon := on_cursorAfter lx file src n
    rw [Scanner.after_ofText] at hafter
    cases hafter
    rw [Scanner.skipBlanks_of_on lx file hon] at hblanks
    cases hblanks
    exact ⟨_, hon.skip _, rfl⟩
  | @escape n _ x _ _ hcall =>
    rw [hcall.eq_call]
    exact (lx.on_next file (on_cursorAfter lx file src n)).2

/-- The lexer never stands at the position that a token without a source has. -/
theorem StandsAt.ne_empty {p : Position} (h : lx.StandsAt file src p) : p ≠ {} := by
  obtain ⟨d, hd, rfl⟩ := h.exists_on
  intro hempty
  have hline := congrArg Position.line hempty
  rw [hd.place_eq] at hline
  have hcount : ((1 + (src.take d.place.offset).count 10 : Nat) : Int) = 0 := hline
  omega

end Lexicon

/-! ## Lines of a file -/

/-- The tokens of the lines and of the error behind them are at these positions. -/
structure SourceLines.Within (R : Position → Prop) (source : SourceLines) : Prop where
  lines : ∀ line ∈ source.lines, Line.Within R line
  error : ∀ d, source.error = some d → (Failure.diagnostic d).BlamedAt R

namespace SourceLines

theorem within_nil {R : Position → Prop} {line : Line} (hline : line.Within R) :
    (ofScans line []).Within R where
  lines := List.forall_mem_singleton.2 hline
  error := by
    rintro d ⟨⟩

theorem within_cons {R : Position → Prop} {s : Scan} {rest : List Scan} {line : Line}
    (hs : R s.token.position) (hline : line.Within R)
    (hrest : s.cause = none → ∀ line, Line.Within R line → (ofScans line rest).Within R) :
    (ofScans line (s :: rest)).Within R := by
  unfold ofScans
  split
  · rename_i d hdiagnostic
    obtain ⟨c, _, rfl⟩ := Option.map_eq_some_iff.1 hdiagnostic
    refine ⟨List.forall_mem_nil _, ?_⟩
    rintro d ⟨⟩
    exact Failure.blamedAt hs c
  · rename_i hdiagnostic
    have hrest := hrest (Option.map_eq_none_iff.1 hdiagnostic)
    split
    · exact within_nil hline
    · have hafter := hrest [] (List.forall_mem_nil _)
      exact ⟨List.forall_mem_cons.2 ⟨hline, hafter.lines⟩, hafter.error⟩
    · exact hrest _ (List.forall_mem_append.2 ⟨hline, List.forall_mem_singleton.2 hs⟩)

variable {lx : Lexicon} {file src : Text}

/-- What is scanned behind `n` calls are the further calls, up to one that fails. -/
theorem within_scan {n : Nat} {line : Line} (hreached : lx.Reaches file src n)
    (hline : line.Within (lx.StandsAt file src)) :
    (ofScans line (lx.scan file (lx.cursorAfter file src n))).Within (lx.StandsAt file src) := by
  generalize hc : lx.cursorAfter file src n = c
  fun_induction Lexicon.scan lx file c generalizing n line with
  | case1 c _ =>
    subst hc
    exact within_cons (Lexicon.standsAt_call hreached) hline fun _ _ hmore => within_nil hmore
  | case2 c _ ih =>
    subst hc
    apply within_cons (Lexicon.standsAt_call hreached) hline
    intro hcause line hmore
    refine ih ?_ hmore (lx.cursorAfter_succ file src n)
    intro k hk
    rcases Nat.lt_succ_iff_lt_or_eq.1 hk with hk | rfl
    · exact hreached k hk
    · exact ⟨_, _, _, Scanner.calls_ofText lx file src k, hcause⟩

end SourceLines

namespace SourceEnv

variable (env : SourceEnv) (name contents : Text)

def lexicon : Lexicon := .ofPunctuation env.machine.punctuationTable

theorem within_linesOf (file text : Text) :
    (env.linesOf file text).Within (env.lexicon.StandsAt file text) :=
  SourceLines.within_scan (n := 0) (fun _ hk => absurd hk (Nat.not_lt_zero _))
    (List.forall_mem_nil _)

/-- A position at which the lexer stands in the program, or in a file that was opened to be
included. -/
def Stands (log : List Record) (p : Position) : Prop :=
  env.lexicon.StandsAt name contents p ∨
  ∃ file source lib text, .included file source ∈ log ∧ env.library = some lib ∧
    lib.read file = .ok text ∧ env.lexicon.StandsAt file text p

variable {env name contents} in
theorem Stands.ne_empty {log : List Record} {p : Position} (h : env.Stands name contents log p) :
    p ≠ {} := by
  rcases h with h | ⟨_, _, _, _, _, _, _, h⟩
  · exact h.ne_empty
  · exact h.ne_empty

end SourceEnv

/-! ## More positions -/

section Mono

variable {R R' : Position → Prop} (hR : ∀ p, R p → R' p)

include hR

theorem Line.Within.mono {line : Line} (h : line.Within R) : line.Within R' :=
  fun t ht => hR _ (h t ht)

theorem Template.Within.mono {t : Template} (h : t.Within R) : t.Within R' :=
  ⟨hR _ h.name, fun line hline => Line.Within.mono hR (h.body line hline)⟩

theorem Failure.BlamedAt.mono {e : Failure} (h : e.BlamedAt R) : e.BlamedAt R' := by
  obtain ⟨t, c, rfl, ht⟩ := h
  exact Failure.blamedAt (hR _ ht) c

theorem SourceLines.Within.mono {source : SourceLines} (h : source.Within R) : source.Within R' :=
  ⟨fun line hline => (h.lines line hline).mono hR, fun d hd => (h.error d hd).mono hR⟩

theorem SourceState.Within.mono {s : SourceState} (h : s.Within R) : s.Within R' where
  statements := by
    intro c hc
    have hwithin := h.statements c hc
    exact ⟨hwithin.labels.mono hR, hR _ hwithin.keyword, hwithin.operands.mono hR⟩
  pending := h.pending.mono hR
  equs := fun e he => hR _ (h.equs e he)
  exports := h.exports.mono hR
  templates := fun e he => (h.templates e he).mono hR
  defining := fun t ht => (h.defining t ht).mono hR

end Mono

/-! ## Moments -/

/-- What a line asks for has its tokens at these positions. -/
def Demand.Within (R : Position → Prop) : Demand → Prop
  | .nothing => True
  | .file _ source => source.Within R
  | .expansion lines => ∀ line ∈ lines, Line.Within R line

structure Level.Within (R : Position → Prop) (l : Level) : Prop where
  source : SourceLines.Within R ⟨l.lines, l.error⟩
  expansions : ∀ lines ∈ l.expansions, ∀ line ∈ lines, Line.Within R line

theorem Level.Within.mono {R R' : Position → Prop} (hR : ∀ p, R p → R' p) {l : Level}
    (h : l.Within R) : l.Within R' :=
  ⟨h.source.mono hR, fun lines hlines line hline => (h.expansions lines hlines line hline).mono hR⟩

structure Moment.Within (R : Position → Prop) (m : Moment) : Prop where
  level : m.level.Within R
  outer : ∀ l ∈ m.outer, l.Within R
  state : m.state.Within R

theorem Moment.Within.push {R : Position → Prop} {m : Moment} (h : m.Within R) {demand : Demand}
    (hdemand : demand.Within R) : (m.push demand).Within R := by
  cases demand with
  | nothing => exact h
  | file name source =>
    exact ⟨⟨hdemand, List.forall_mem_nil _⟩, List.forall_mem_cons.2 ⟨h.level, h.outer⟩, h.state⟩
  | expansion lines =>
    exact ⟨⟨h.level.source, List.forall_mem_cons.2 ⟨hdemand, h.level.expansions⟩⟩, h.outer, h.state⟩

namespace SourceEnv

variable (env : SourceEnv) (name contents : Text)

/-- What has been gathered comes from the files that the log names. -/
def Gathered (s : SourceState) : Prop := s.Within (env.Stands name contents s.log)

/-- Reading stopped at a token of the files that the log names. -/
def Stopped (stop : Stop) : Prop := stop.failure.BlamedAt (env.Stands name contents stop.log)

/-- All files that are being read are named in the log. -/
def Traced : Progress → Prop
  | .ongoing m => m.Within (env.Stands name contents m.state.log)
  | .ended result => Ends (env.Gathered name contents) (env.Stopped name contents) result

variable {env name contents}

theorem stands_mono (env : SourceEnv) (name contents : Text) {log log' : List Record}
    (h : log ⊆ log') : ∀ p, env.Stands name contents log p → env.Stands name contents log' p := by
  rintro p (hmain | ⟨file, source, lib, text, hlog, hfile⟩)
  · exact .inl hmain
  · exact .inr ⟨file, source, lib, text, h hlog, hfile⟩

theorem Gathered.of_keeps {s s' : SourceState}
    (h : s.Keeps (env.Stands name contents s.log) s') : env.Gathered name contents s' :=
  h.within.mono (env.stands_mono name contents h.log)

theorem within_of_equLine? {R : Position → Prop} {head keyword : Token} {rest value : List Token}
    (hrest : Line.Within R rest) (h : SourceState.equLine? head rest = some (keyword, value)) :
    R keyword.position ∧ Line.Within R value := by
  unfold SourceState.equLine? at h
  split at h
  · split at h
    · cases h
      exact List.forall_mem_cons.1 hrest
    · cases h
  · cases h

theorem within_of_fileName? {R : Position → Prop} {rest : List Token} {t : Token}
    (hrest : Line.Within R rest) (h : SourceState.fileName? rest = some t) : R t.position := by
  obtain ⟨rfl, _⟩ := SourceState.of_sole? h
  exact hrest t List.mem_cons_self

theorem stopped_attempt {α : Type} {P : α → Prop} {s : SourceState} {r : Except Failure α}
    (h : Blamed (env.Stands name contents s.log) P r) :
    Ends P (env.Stopped name contents) (s.attempt r) :=
  Ends.mapError h

theorem stopped_stop {α : Type} {P : α → Prop} {s : SourceState} {t : Token}
    (h : env.Stands name contents s.log t.position) (c : Cause) :
    Ends P (env.Stopped name contents) (s.stop (.blame t c) : Except Stop α) :=
  .error (Failure.blamedAt h c)

/-- What comes from a line, and what the line asks for, has its tokens from the files in the
log. -/
structure Taken (env : SourceEnv) (name contents : Text) (log : List Record)
    (x : SourceState × Demand) : Prop where
  gathered : env.Gathered name contents x.1
  log : log ⊆ x.1.log
  demand : x.2.Within (env.Stands name contents x.1.log)

section TakeLine

variable {s : SourceState}

/-- A line that asks for nothing. -/
theorem taken_attempt {r : Except Failure SourceState}
    (h : Blamed (env.Stands name contents s.log) (s.Keeps (env.Stands name contents s.log)) r) :
    Ends (env.Taken name contents s.log) (env.Stopped name contents)
      (do return (← s.attempt r, Demand.nothing)) := by
  apply (stopped_attempt h).bind
  intro s' hs'
  exact .ok ⟨.of_keeps hs', hs'.log, trivial⟩

/-- A file that is included has its name in the log when its lines are read. -/
theorem Gathered.included (h : env.Gathered name contents s) {lib : Library}
    (hlib : env.library = some lib) {included text : Text} (hread : lib.read included = .ok text)
    (file : Text) : env.Taken name contents s.log ({ s with log := s.log ++ [.included included file] },
      .file included (env.linesOf included text)) where
  gathered := by
    have hlog : s.log ⊆ s.log ++ [.included included file] := List.subset_append_left _ _
    exact { SourceState.Within.mono (env.stands_mono name contents hlog) h with }
  log := List.subset_append_left _ _
  demand := by
    apply (env.within_linesOf included text).mono
    intro p hp
    have hmem : Record.included included file ∈ s.log ++ [.included included file] :=
      List.mem_append_right _ List.mem_cons_self
    exact .inr ⟨included, file, lib, text, hmem, hlib, hread, hp⟩

theorem taken_takeLine (file : Text) (outer : List Text) (depth : Nat)
    (hs : env.Gathered name contents s) {line : Line}
    (hline : line.Within (env.Stands name contents s.log)) :
    Ends (env.Taken name contents s.log) (env.Stopped name contents)
      (env.takeLine file outer depth line s) := by
  have hlabels : env.Gathered name contents (s.addLabels line) := (hs.addLabels hline).within
  apply (stopped_attempt (SourceState.blamed_checkLegal hline)).bind
  intro _ _
  have hlog : (s.addLabels line).log = s.log := rfl
  rw [← hlog] at hline ⊢
  generalize s.addLabels line = s at hlabels hline
  dsimp only
  split
  · exact .ok ⟨hlabels, List.Subset.refl _, trivial⟩
  · rename_i head rest hdrop
    have htokens : Line.Within (env.Stands name contents s.log) (head :: rest) := by
      intro t ht
      rw [← hdrop] at ht
      exact hline t ((List.dropWhile_sublist _).mem ht)
    obtain ⟨hhead, hrest⟩ := List.forall_mem_cons.1 htokens
    split
    · rename_i keyword value hequ
      obtain ⟨hkeyword, hvalue⟩ := within_of_equLine? hrest hequ
      exact taken_attempt (hlabels.blamed_defineEqu hkeyword hvalue hhead)
    · split
      · split
        · exact stopped_stop hhead _
        · rename_i t hfile
          have ht := within_of_fileName? hrest hfile
          split
          · exact stopped_stop ht _
          · split
            · exact stopped_stop ht _
            · rename_i lib hlib
              split
              · exact stopped_stop ht _
              · rename_i text hread
                exact .ok (hlabels.included hlib hread file)
      · split
        · split
          · rename_i t htemplate
            split
            · exact stopped_stop hhead _
            · have ht := hlabels.templates.find? htemplate
              apply (stopped_attempt (SourceState.blamed_expansion ht hhead hrest)).bind
              intro lines hlines
              exact .ok ⟨hlabels, List.Subset.refl _, hlines⟩
          · exact taken_attempt (hlabels.blamed_plainLine hhead hrest)
        · exact taken_attempt (hlabels.blamed_plainLine hhead hrest)

end TakeLine

variable {m : Moment}

theorem traced_take (h : m.Within (env.Stands name contents m.state.log)) {line : Line}
    (hline : line.Within (env.Stands name contents m.state.log)) :
    env.Traced name contents (env.take m line) := by
  have htaken := taken_takeLine m.level.file (m.outer.map Level.file) m.level.depth h.state hline
  unfold take
  split
  · rename_i s demand htake
    rw [htake] at htaken
    have hs := htaken.of_ok
    have hmono := env.stands_mono name contents hs.log
    have hmoment : Moment.Within (env.Stands name contents s.log) { m with state := s } :=
      ⟨h.level.mono hmono, fun l hl => (h.outer l hl).mono hmono, hs.gathered⟩
    show Moment.Within (env.Stands name contents (Moment.push _ demand).state.log) _
    rw [Moment.state_push]
    exact hmoment.push hs.demand
  · rename_i stop htake
    rw [htake] at htaken
    exact .error htaken.of_error

theorem stopped_endOfFile {s : SourceState} (hs : env.Gathered name contents s)
    {error : Option Diagnostic}
    (herror : ∀ d, error = some d →
      (Failure.diagnostic d).BlamedAt (env.Stands name contents s.log)) :
    Ends (env.Gathered name contents) (env.Stopped name contents) (s.endOfFile error) := by
  unfold SourceState.endOfFile
  split
  · exact .error (herror _ rfl)
  · split
    · rename_i t hdefining
      exact stopped_stop (hs.defining t hdefining).name _
    · exact .ok hs

/-- A step takes its tokens from the files in the log. -/
theorem traced_step (h : m.Within (env.Stands name contents m.state.log)) :
    env.Traced name contents (env.step m) := by
  unfold step
  split
  · rename_i line rest more hexpansions
    have hall := h.level.expansions
    rw [hexpansions] at hall
    obtain ⟨hfirst, hmore⟩ := List.forall_mem_cons.1 hall
    obtain ⟨hline, hrest⟩ := List.forall_mem_cons.1 hfirst
    refine traced_take (m := { m with level := { m.level with expansions := rest :: more } })
      ⟨⟨h.level.source, ?_⟩, h.outer, h.state⟩ hline
    exact List.forall_mem_cons.2 ⟨hrest, hmore⟩
  · rename_i more hexpansions
    have hall := h.level.expansions
    rw [hexpansions] at hall
    exact ⟨⟨h.level.source, (List.forall_mem_cons.1 hall).2⟩, h.outer, h.state⟩
  · split
    · rename_i line rest hlines
      have hall := h.level.source.lines
      rw [hlines] at hall
      obtain ⟨hline, hrest⟩ := List.forall_mem_cons.1 hall
      split
      · rename_i t hdefining
        have hcollect := stopped_attempt (h.state.blamed_collect hdefining hline)
        split
        · rename_i s hs
          rw [hs] at hcollect
          have hkeeps := hcollect.of_ok
          have hmono := env.stands_mono name contents hkeeps.log
          have hlevel : Level.Within (env.Stands name contents m.state.log)
              { m.level with lines := rest } :=
            ⟨⟨hrest, h.level.source.error⟩, h.level.expansions⟩
          exact ⟨hlevel.mono hmono, fun l hl => (h.outer l hl).mono hmono, Gathered.of_keeps hkeeps⟩
        · rename_i stop hstop
          rw [hstop] at hcollect
          exact .error hcollect.of_error
      · exact traced_take (m := { m with level := { m.level with lines := rest } })
          ⟨⟨⟨hrest, h.level.source.error⟩, h.level.expansions⟩, h.outer, h.state⟩ hline
    · have hend := stopped_endOfFile h.state h.level.source.error
      split
      · rename_i stop hstop
        rw [hstop] at hend
        exact .error hend.of_error
      · rename_i s level outer hs houter
        obtain ⟨_, _, rfl⟩ := SourceState.endOfFile_eq_ok hs
        have houter' := h.outer
        rw [houter] at houter'
        obtain ⟨hlevel, hrest⟩ := List.forall_mem_cons.1 houter'
        exact ⟨hlevel, hrest, h.state⟩
      · rename_i s hs _
        rw [hs] at hend
        exact .ok hend.of_ok

theorem traced_after {p : Progress} (h : env.Traced name contents p) (n : Nat) :
    env.Traced name contents (env.after n p) := by
  induction n generalizing p with
  | zero =>
    cases p with
    | ongoing m => exact h
    | ended result => exact h
  | succ n ih =>
    cases p with
    | ongoing m => exact ih (traced_step h)
    | ended result =>
      rw [after_ended]
      exact h

/-! ## Programs -/

theorem traced_firstMoment (env : SourceEnv) (name contents : Text) :
    env.Traced name contents (.ongoing (env.firstMoment name contents)) := by
  have hsource : (env.linesOf name contents).Within (env.Stands name contents []) :=
    (env.within_linesOf name contents).mono fun p hp => .inl hp
  refine ⟨⟨⟨hsource.lines, hsource.error⟩, List.forall_mem_nil _⟩, List.forall_mem_nil _, ?_⟩
  exact ⟨List.forall_mem_nil _, List.forall_mem_nil _, Table.All.empty _, List.forall_mem_nil _,
    Table.All.empty _, nofun⟩

/-- Reading stops at a token of the program or of an included file, or gathers such tokens
only. -/
theorem stopped_parse (env : SourceEnv) (name contents : Text) :
    Ends (env.Gathered name contents) (env.Stopped name contents) (env.parse name contents) := by
  obtain ⟨n, hn⟩ := env.leads_ended (Path.clean name) (env.linesOf name contents).lines
    (env.linesOf name contents).error {}
  have hread := traced_after (env.traced_firstMoment name contents) n
  rw [firstMoment, hn] at hread
  rw [parse_eq_conclude]
  cases hlines : env.readLines [Path.clean name] (env.linesOf name contents).lines {} >>=
      (·.endOfFile (env.linesOf name contents).error) with
  | error stop =>
    rw [hlines] at hread
    exact .error hread.of_error
  | ok s =>
    rw [hlines] at hread
    have hs : env.Gathered name contents s.closeLabels := .of_keeps hread.of_ok.closeLabels
    have hformed : s.WellFormed env.machine := by
      obtain ⟨gathered, hgathered, hend⟩ := bind_eq_ok.1 hlines
      obtain ⟨_, _, rfl⟩ := SourceState.endOfFile_eq_ok hend
      exact env.invariant_wellFormed.readLines (fun l hl => env.invariant_wellFormed.scanned hl)
        (SourceState.wellFormed_empty env.machine) hgathered
    apply (stopped_attempt (hs.blamed_checkSymbols hformed.closeLabels)).bind
    intro _ _
    exact .ok hs

end SourceEnv

/-! ## Code -/

variable {R : Position → Prop}

theorem Statement.Unresolved.blamedAt {labels : Table Token} {c : Statement} {e : Failure}
    (h : c.Unresolved labels e) (hc : Line.Within R c.operands) : e.BlamedAt R := by
  cases h with
  | undefined ho => exact Failure.blamedAt (hc _ (List.mem_of_getElem? ho)) _
  | unlisted hwrites => exact Failure.blamedAt (hc _ (List.mem_of_getElem? hwrites.operand)) _

theorem Statement.TooWide.blamedAt {c : Statement} {e : Failure} (h : c.TooWide e)
    (hc : Line.Within R c.operands) : e.BlamedAt R := by
  cases h with
  | field hwrites => exact Failure.blamedAt (hc _ (List.mem_of_getElem? hwrites.operand)) _
  | data _ ho => exact Failure.blamedAt (hc _ ho) _

namespace Label

variable {labels : Table Token} {address next : UInt64}

theorem position_of_replaceValue {o o' : Token} (h : replaceValue labels o = .ok o') :
    o'.position = o.position := by
  unfold replaceValue at h
  split at h
  · split at h
    · cases h
      rfl
    · cases h
  · cases h
    rfl

theorem position_of_replaceOperand {spec : Instruction} {f : Field} {pos : Nat} {o o' : Token}
    (h : replaceOperand spec labels address next f pos o = .ok o') : o'.position = o.position := by
  rcases of_replaceOperand h with ⟨_, _, _, _, rfl⟩ | ⟨_, _, _, rfl⟩ | ⟨_, _, _, rfl⟩
  · rfl
  · rfl
  · rfl

/-- A number stands where the name stood that it replaces. -/
theorem within_of_replaceNames {m : Machine} {c r : Statement} (hformed : c.WellFormed m)
    (hc : Line.Within R c.operands) (h : replaceNames labels address next c = .ok r) :
    Line.Within R r.operands := by
  have hdirective (hspec : c.instruction = none) : Line.Within R r.operands := by
    rw [replaceNames_of_directive hspec] at h
    obtain ⟨operands, hoperands, hr⟩ := bind_eq_ok.1 h
    cases hr
    intro o' ho'
    obtain ⟨i, hi⟩ := List.mem_iff_getElem?.1 ho'
    obtain ⟨o, ho, hvalue⟩ := forall₂_getElem?_right (mapM_eq_ok.1 hoperands) hi
    rw [position_of_replaceValue hvalue]
    exact hc o (List.mem_of_getElem? ho)
  cases hformed with
  | @instruction _ spec _ operands _ _ _ hmost =>
    rw [replaceNames_of_instruction rfl hmost] at h
    obtain ⟨replaced, hreplaced, hr⟩ := bind_eq_ok.1 h
    cases hr
    intro o' ho'
    obtain ⟨i, hi⟩ := List.mem_iff_getElem?.1 ho'
    obtain ⟨⟨⟨f, pos⟩, o⟩, hslot, hoperand⟩ := forall₂_getElem?_right (mapM_eq_ok.1 hreplaced) hi
    rw [position_of_replaceOperand hoperand]
    exact hc o (List.mem_of_getElem? (List.getElem?_zip_eq_some.1 hslot).2)
  | data => exact hdirective rfl
  | ascii => exact hdirective rfl
  | cell => exact hdirective rfl

end Label

namespace SourceEnv

variable {env : SourceEnv} {name contents : Text} {start : UInt64} {s : SourceState}
  {cs : List Statement} {equs labels : Table Token}

/-- Once labels have addresses, an operand is to blame. -/
theorem Addressed.blamed_result (hm : env.machine.Valid)
    (h : env.Addressed name contents start s cs equs labels) (hcs : ∀ c ∈ cs, c.Within R)
    {e : Failure} (he : (env.assemble name contents start).result = .error e) : e.BlamedAt R := by
  obtain ⟨spans, hlayout⟩ := h.exists_layout
  rw [h.result_eq hlayout, bind_eq_error] at he
  rcases he with he | ⟨rs, hrs, he⟩
  · obtain ⟨_, c, _, hc, _, _, hunresolved⟩ := h.unresolved_of_replace hlayout he
    exact hunresolved.blamedAt (hcs c (List.mem_of_getElem? hc)).operands
  · rcases bind_eq_error.1 he with he | ⟨_, _, he⟩
    · obtain ⟨r, hr, hwide⟩ := h.tooWide_of_generate hm hlayout hrs he
      obtain ⟨i, hi⟩ := List.mem_iff_getElem?.1 hr
      obtain ⟨⟨c, here⟩, hpair, hnames⟩ := forall₂_getElem?_right (mapM_eq_ok.1 hrs) hi
      have hc := List.mem_of_getElem? (List.getElem?_zip_eq_some.1 hpair).1
      exact hwide.blamedAt
        (Label.within_of_replaceNames (h.wellFormed c hc) (hcs c hc).operands hnames)
    · cases he

/-- The stages after reading blame tokens that were gathered. -/
theorem blamed_result_of_parse (hm : env.machine.Valid) (hread : env.parse name contents = .ok s)
    (hs : s.Within R) {e : Failure} (he : (env.assemble name contents start).result = .error e) :
    e.BlamedAt R := by
  cases hconstants : Equ.resolve s.statements s.equs env.machine.equs with
  | error f =>
    have hblamed := Equ.blamed_resolve s.statements hs.equs env.machine.equs
    simp only [assemble, hread, finish, hconstants] at he
    cases he
    rw [hconstants] at hblamed
    exact hblamed.of_error
  | ok resolved =>
    obtain ⟨cs, equs⟩ := resolved
    have hformed := (wellFormed_of_parse hread).1
    have hcs : ∀ c ∈ cs, c.Within R := by
      rw [(Equ.of_resolve hformed.statements hformed.equs hconstants).1]
      exact List.forall_mem_map.2 fun c hc => Equ.within_replaceIn equs (hs.statements c hc)
    cases hlabels : Label.assign cs start env.machine.cellSize with
    | error f =>
      have hblamed := Label.blamed_assignFrom (Int.ne_of_gt hm.cellSize_pos) start {} hcs
      simp only [assemble, hread, finish, hconstants, ok_bind, hlabels] at he
      cases he
      rw [Label.assign] at hlabels
      rw [hlabels] at hblamed
      exact hblamed.of_error
    | ok labels =>
      have haddressed : env.Addressed name contents start s cs equs labels :=
        ⟨hread, hconstants, hlabels⟩
      exact haddressed.blamed_result hm hcs he

/-- What reading records stays in the log of the assembly. -/
theorem log_subset_of_parse (start : UInt64) (hread : env.parse name contents = .ok s) :
    s.log ⊆ (env.assemble name contents start).log := by
  simp only [assemble, hread, finish]
  split
  · exact List.subset_append_left _ _
  · split
    · exact List.subset_append_of_subset_left _ (List.subset_append_left _ _)
    · exact List.subset_append_of_subset_left _
        (List.subset_append_of_subset_left _ (List.subset_append_left _ _))

/-- An assembly for a valid machine fails at a place of the program or of a file that it
included. -/
theorem blamed_assemble (hm : env.machine.Valid) {e : Failure}
    (he : (env.assemble name contents start).result = .error e) :
    e.BlamedAt (env.Stands name contents (env.assemble name contents start).log) := by
  have hparse := env.stopped_parse name contents
  cases hread : env.parse name contents with
  | error stop =>
    rw [hread] at hparse
    have hstopped := hparse.of_error
    simp only [assemble, hread] at he ⊢
    cases he
    exact hstopped
  | ok s =>
    rw [hread] at hparse
    have hgathered := hparse.of_ok
    have hmono := env.stands_mono name contents (log_subset_of_parse start hread)
    exact blamed_result_of_parse hm hread (SourceState.Within.mono hmono hgathered) he

end SourceEnv

/-- Whatever is assembled for an accepted machine, from whatever source and files: if it
fails, there is a token to blame, and it is at a position where the lexer stood in the
source or in a file that was included. A number that only stands for a constant of the
machine has the empty position, and is not blamed. -/
theorem Assembler.assembleSource_blames {a : Assembler} {m : Option Machine}
    (haccept : accept m = .ok a.machine) (library : Library) (name contents : Text)
    (start : UInt64) {e : Failure}
    (h : (a.assembleSource library name contents start).2.result = .error e) :
    ∃ t c, e = .blame t c ∧ t.position ≠ {} ∧
      SourceEnv.Stands ⟨a.machine, some library⟩ name contents
        (a.assembleSource library name contents start).2.log t.position := by
  rw [assembleSource_snd] at h ⊢
  obtain ⟨t, c, he, ht⟩ := SourceEnv.blamed_assemble (valid_of_accept haccept) h
  exact ⟨t, c, he, ht.ne_empty, ht⟩

namespace Sample

/-- A file with an escape that the lexer does not know. -/
def escaping : Library := .ofTable (.ofList [("b", " .ascii \"a\\q\"\n")])

def including : Text := " .include \"b\"\n"

def unknownEscape : Token where
  kind := .illegal
  contents := "\\q"
  position := ⟨"b", 1, 11, 10⟩
  legal := false

/-- The backslash in the included file is to blame. -/
theorem escaping_blamed :
    (assembler.assembleSource escaping "main" including 0).2.result =
      .error (.blame unknownEscape (.illegalEscape (some 'q'))) ∧
    unknownEscape.position ≠ {} ∧
    SourceEnv.Stands ⟨assembler.machine, some escaping⟩ "main" including
      (assembler.assembleSource escaping "main" including 0).2.log unknownEscape.position := by
  have hresult : (assembler.assembleSource escaping "main" including 0).2.result =
      .error (.blame unknownEscape (.illegalEscape (some 'q'))) := by
    rw [Assembler.assembleSource_snd]
    apply SourceEnv.result_of_resultAfter? (n := 9)
    decide +kernel
  obtain ⟨t, c, he, hposition⟩ :=
    Assembler.assembleSource_blames accepted escaping "main" including 0 hresult
  cases he
  exact ⟨hresult, hposition⟩

end Sample

end CellAsm
