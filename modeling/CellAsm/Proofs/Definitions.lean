-- SUMMARY: When definitions of templates overlap, and what then becomes of them.
import CellAsm.Proofs.History
import CellAsm.Proofs.Statements

/-!
# Definitions of templates

A definition starts on a line that is read, goes on over the lines that are collected,
and ends on the line that closes it. No line of a file is read while a definition is open.
The lines of an expansion are read in any case. Should one of them start a definition and
others follow it, these are read while the definition is open, and if one of them starts a
definition again, the first is abandoned. A line that starts with the keyword is not taken
into a template; behind a label, or as an argument of a call, the keyword gets into an
expansion.
-/
namespace CellAsm

/-- The name of the template whose definition the line starts. -/
def Line.opening? (line : Line) : Option Token :=
  match line.dropWhile (·.kind == .label) with
  | head :: name :: _ => if head.kind = .templateStart then some name else none
  | _ => none

theorem Line.opening?_eq {line : Line} {head name : Token} {rest : List Token}
    (hkind : head.kind = .templateStart)
    (h : line.dropWhile (·.kind == .label) = head :: name :: rest) :
    line.opening? = some name := by
  simp only [opening?, h, hkind, if_true]

theorem Line.opening?_of_keyword? {line : Line} (h : line.keyword? ≠ some .templateStart) :
    line.opening? = none := by
  unfold opening?
  split
  · rename_i hline
    rw [keyword?_eq hline, ne_eq, Option.some_inj] at h
    rw [if_neg h]
  · rfl

/-- The lines that are left of the expansions in the file. -/
def Level.expanded (l : Level) : List Line := l.expansions.flatten

/-- A definition is opened for a name, or the template is closed. -/
inductive DefinitionEvent
  | opened (name : Token)
  | closed (t : Template)

/-- A template that was defined, with the names of the definitions that were abandoned for it. -/
structure Definition where
  abandoned : List Token
  template : Template

/-- All definitions are opened one after the other, and the last is closed. -/
def Definition.events (d : Definition) : List DefinitionEvent :=
  d.abandoned.map .opened ++ [.opened d.template.name, .closed d.template]

namespace Moment

def opening? (m : Moment) : Option Token := m.line?.bind Line.opening?

/-- The template that the collected line closes. -/
def closing? (m : Moment) : Option Template :=
  match m.collected? with
  | some (t, line) => if line.head?.map Token.kind = some .templateEnd then some t else none
  | none => none

def events (m : Moment) : List DefinitionEvent :=
  (m.opening?.map .opened).toList ++ (m.closing?.map .closed).toList

variable {m : Moment} {line : Line} {t : Template}

theorem collected?_of_line? (h : m.line? = some line) : m.collected? = none := by
  cases hcollected : m.collected? with
  | none => rfl
  | some x => cases h.symm.trans (of_collected? hcollected).2.2.2

/-- A line is read from a file while no definition is open, or from an expansion. -/
theorem of_line? (h : m.line? = some line) :
    (m.level.expansions = [] ∧ line ∈ m.level.lines ∧ m.state.defining = none) ∨
    line ∈ m.level.expanded := by
  unfold line? at h
  split at h
  · rename_i hexpansions
    cases h
    refine .inr ?_
    rw [Level.expanded, hexpansions]
    exact List.mem_cons_self
  · rename_i hexpansions hlines hdefining
    cases h
    refine .inl ⟨hexpansions, ?_, hdefining⟩
    rw [hlines]
    exact List.mem_cons_self
  · cases h

theorem exists_line_of_opening? (h : m.opening?.isSome) :
    ∃ line, m.line? = some line ∧ line.opening?.isSome := by
  obtain ⟨name, hname⟩ := Option.isSome_iff_exists.1 h
  obtain ⟨line, hline, hopening⟩ := Option.bind_eq_some_iff.1 hname
  exact ⟨line, hline, Option.isSome_of_eq_some hopening⟩

theorem opening?_of_line? (h : m.line? = some line) : m.opening? = line.opening? := by
  rw [opening?, h, Option.bind_some]

theorem opening?_of_none (h : m.line? = none) : m.opening? = none := by
  rw [opening?, h, Option.bind_none]

theorem events_of_line? (h : m.line? = some line) :
    m.events = (line.opening?.map .opened).toList := by
  rw [events, opening?_of_line? h, closing?, collected?_of_line? h]
  exact List.append_nil _

theorem events_of_collected? (h : m.collected? = some (t, line)) :
    m.events = if line.head?.map Token.kind = some .templateEnd then [.closed t] else [] := by
  rw [events, opening?_of_none (of_collected? h).2.2.2, closing?, h]
  dsimp only
  split <;> rfl

theorem events_of_none (hline : m.line? = none) (hcollected : m.collected? = none) :
    m.events = [] := by
  rw [events, opening?_of_none hline, closing?, hcollected]
  rfl

end Moment

/-! ## Reading while a definition is open -/

namespace SourceEnv

variable {env : SourceEnv} {name contents : Text} {m m' : Moment}

/-- Whenever a line is read, no definition is open. -/
def NeverOverlaps (env : SourceEnv) (name contents : Text) : Prop :=
  ∀ m, env.Occurs name contents m → m.line?.isSome → m.state.defining = none

/-- A line that starts a definition is the last one of all expansions it stands in. -/
def OpensLast (env : SourceEnv) (name contents : Text) : Prop :=
  ∀ m m', env.Occurs name contents m → env.step m = .ongoing m' → m.opening?.isSome →
    m.level.advance.expanded = []

theorem LineTaken.demand_of_keyword? {file : Text} {outer : List Text} {depth : Nat} {line : Line}
    {s s' : SourceState} {demand : Demand} (h : LineTaken env file outer depth line s s' demand)
    (hkeyword : line.keyword? = some .templateStart) : demand = .nothing := by
  cases h with
  | labels => rfl
  | equ => rfl
  | included hline _ hkind =>
    rw [Line.keyword?_eq hline, hkind] at hkeyword
    cases hkeyword
  | expanded hline _ hkind =>
    rw [Line.keyword?_eq hline, hkind] at hkeyword
    cases hkeyword
  | plain => rfl

/-- A line leaves what is being defined as it is, or starts a definition and asks for
nothing. -/
theorem LineTaken.defining {file : Text} {outer : List Text} {depth : Nat} {line : Line}
    {s s' : SourceState} {demand : Demand} (h : LineTaken env file outer depth line s s' demand) :
    (line.opening? = none ∧ s'.defining = s.defining) ∨
    (line.opening?.isSome ∧ s'.defining ≠ none ∧ demand = .nothing) := by
  have hdemand := h.demand_of_keyword?
  cases h.gains with
  | waits _ hkeyword => exact .inl ⟨Line.opening?_of_keyword? hkeyword, rfl⟩
  | adds hkeyword hadds => exact .inl ⟨Line.opening?_of_keyword? hkeyword, hadds.defining⟩
  | starts hkeyword hline _ _ =>
    refine .inr ⟨?_, Option.some_ne_none _, hdemand ?_⟩
    · rw [Line.opening?_eq hkeyword hline]
      rfl
    · rw [Line.keyword?_eq hline, hkeyword]

theorem Stepped.of_line? (h : env.Stepped m m') {line : Line} (hline : m.line? = some line) :
    ∃ s demand, LineTaken env m.level.file (m.outer.map Level.file) m.level.advance.depth line
      m.state s demand ∧ m' = Moment.push ⟨m.level.advance, m.outer, s⟩ demand := by
  cases h with
  | @read line' s demand hline' htaken =>
    cases hline.symm.trans hline'
    exact ⟨s, demand, htaken, rfl⟩
  | collected hcollected => cases hline.symm.trans (Moment.of_collected? hcollected).2.2.2
  | left hexpansions => simp [Moment.line?, hexpansions] at hline
  | closed hexpansions hlines => simp [Moment.line?, hexpansions, hlines] at hline

/-- As long as lines of an expansion are left, one of them is read next. -/
theorem exists_line_of_expanded (h : env.Occurs name contents m) (hleft : m.level.expanded ≠ []) :
    ∃ m', env.Occurs name contents m' ∧ m'.line?.isSome ∧ m'.state = m.state := by
  obtain ⟨⟨file, lines, error, expansions⟩, outer, s⟩ := m
  induction expansions with
  | nil => exact absurd rfl hleft
  | cons expansion more ih =>
    cases expansion with
    | nil => exact ih (h.next rfl) hleft
    | cons line rest => exact ⟨_, h, rfl, rfl⟩

theorem opensLast_of_neverOverlaps (h : env.NeverOverlaps name contents) :
    env.OpensLast name contents := by
  intro m m' hm hstep hopening
  obtain ⟨line, hline, hopening⟩ := Moment.exists_line_of_opening? hopening
  obtain ⟨s, demand, htaken, rfl⟩ := (stepped_of_step hstep).of_line? hline
  rcases htaken.defining with ⟨hnone, _⟩ | ⟨_, hopen, rfl⟩
  · rw [hnone] at hopening
    cases hopening
  · by_contra hleft
    obtain ⟨m', hm', hread, hstate⟩ := exists_line_of_expanded (hm.next hstep) hleft
    have hclosed := h m' hm' hread
    rw [hstate] at hclosed
    exact hopen hclosed

/-- While a definition is open, no line of an expansion is left. -/
theorem OpensLast.expanded_eq_nil (h : env.OpensLast name contents)
    (hm : env.Occurs name contents m) (hopen : m.state.defining ≠ none) :
    m.level.expanded = [] := by
  induction hm with
  | first => exact absurd rfl hopen
  | @next m m' hm hstep ih =>
    cases stepped_of_step hstep with
    | @read line s demand hline htaken =>
      rw [Moment.state_push] at hopen
      rcases htaken.defining with ⟨_, hsame⟩ | ⟨hopening, _, rfl⟩
      · -- The line would be one of an expansion, and none is left.
        have hstill : m.state.defining ≠ none := fun hclosed => hopen (hsame.trans hclosed)
        rcases Moment.of_line? hline with ⟨_, _, hclosed⟩ | hmem
        · exact absurd hclosed hstill
        · rw [ih hstill] at hmem
          cases hmem
      · refine h m _ hm hstep ?_
        rw [Moment.opening?_of_line? hline]
        exact hopening
    | collected hcollected =>
      simp [Level.expanded, Level.advance, (Moment.of_collected? hcollected).1]
    | left hexpansions =>
      have hnil := ih hopen
      rw [Level.expanded, hexpansions] at hnil
      rw [Level.expanded, Level.advance, hexpansions]
      exact hnil
    | closed _ _ hclosed => exact absurd hclosed hopen

/-- No line is read while a definition is open if and only if all definitions that start within
expansions start on their last lines. -/
theorem neverOverlaps_iff : env.NeverOverlaps name contents ↔ env.OpensLast name contents := by
  constructor
  · exact opensLast_of_neverOverlaps
  · intro h m hm hread
    by_contra hopen
    obtain ⟨line, hline⟩ := Option.isSome_iff_exists.1 hread
    rcases Moment.of_line? hline with ⟨_, _, hclosed⟩ | hmem
    · exact hopen hclosed
    · rw [h.expanded_eq_nil hm hopen] at hmem
      cases hmem

end SourceEnv

/-! ## Keywords at the front of their lines -/

/-- No token of the line is the keyword that starts a definition. -/
def Line.Free (line : Line) : Prop := ∀ t ∈ line, t.kind ≠ .templateStart

/-- The keyword that starts a definition stands nowhere but at the front of the line. -/
def Line.Leading (line : Line) : Prop := ∀ t ∈ line.tail, t.kind ≠ .templateStart

instance (line : Line) : Decidable line.Leading :=
  inferInstanceAs (Decidable (∀ t ∈ line.tail, t.kind ≠ .templateStart))

def Template.Free (t : Template) : Prop := ∀ line ∈ t.body, Line.Free line

structure Level.Leading (l : Level) : Prop where
  lines : ∀ line ∈ l.lines, line.Leading
  expanded : ∀ line ∈ l.expanded, line.Free

structure SourceState.Free (s : SourceState) : Prop where
  templates : s.templates.All Template.Free
  defining : ∀ t, s.defining = some t → t.Free

structure Moment.Leading (m : Moment) : Prop where
  levels : ∀ l ∈ m.levels, l.Leading
  state : m.state.Free

/-- The keyword stands at the front of its lines in the program and in all files that it may
include. -/
structure SourceEnv.Leading (env : SourceEnv) (name contents : Text) : Prop where
  program : ∀ line ∈ (env.linesOf name contents).lines, line.Leading
  files : ∀ lib file text, env.library = some lib → lib.read file = .ok text →
    ∀ line ∈ (env.linesOf file text).lines, line.Leading

theorem Line.Free.leading {line : Line} (h : line.Free) : line.Leading :=
  fun t ht => h t (List.mem_of_mem_tail ht)

theorem Line.Free.opening?_eq_none {line : Line} (h : line.Free) : line.opening? = none := by
  unfold opening?
  split
  · rename_i head _ _ hline
    have hmem : head ∈ line := by
      apply (List.dropWhile_sublist (·.kind == .label)).subset
      rw [hline]
      exact List.mem_cons_self
    rw [if_neg (h head hmem)]
  · rfl

theorem Line.Leading.free {line : Line} (h : line.Leading)
    (hstart : line.head?.map Token.kind ≠ some .templateStart) : line.Free := by
  cases line with
  | nil => exact List.forall_mem_nil _
  | cons head rest =>
    refine List.forall_mem_cons.2 ⟨?_, h⟩
    intro hkind
    exact hstart (congrArg some hkind)

/-- Behind the first token after the labels there is no such keyword. -/
theorem Line.Leading.rest {line : Line} (h : line.Leading) {head : Token} {rest : List Token}
    (hline : line.dropWhile (·.kind == .label) = head :: rest) :
    ∀ t ∈ rest, t.kind ≠ .templateStart := by
  intro t ht
  apply h t
  have happend := List.takeWhile_append_dropWhile (p := (·.kind == .label)) (l := line)
  rw [hline] at happend
  rw [← happend, List.tail_append]
  split
  · exact ht
  · exact List.mem_append_right _ (List.mem_cons_of_mem _ ht)

/-- The lines that a call stands for hold tokens of the template and of the call. -/
theorem Template.Free.expansion {t : Template} (h : t.Free) {head : Token} {rest : List Token}
    (hrest : ∀ t ∈ rest, t.kind ≠ .templateStart) {lines : List Line}
    (hlines : SourceState.expansion t head rest = .ok lines) : ∀ line ∈ lines, line.Free := by
  obtain ⟨arguments, hsplit, hlength, rfl⟩ := SourceState.expansion_eq_ok hlines
  intro line hline token htoken
  obtain ⟨i, hi⟩ := List.mem_iff_getElem?.1 hline
  obtain ⟨body, hbody, htokens⟩ := forall₂_getElem?_right (t.forall₂_instantiate hlength) hi
  obtain ⟨j, hj⟩ := List.mem_iff_getElem?.1 htoken
  obtain ⟨original, horiginal, hsubstituted⟩ := forall₂_getElem?_right htokens hj
  cases hsubstituted with
  | argument _ _ _ hargument =>
    exact hrest _ (mem_of_splitOperands hsplit _ (List.mem_of_getElem? hargument))
  | same => exact h body (List.mem_of_getElem? hbody) _ (List.mem_of_getElem? horiginal)

theorem Level.expanded_advance {l : Level} {line : Line} (h : line ∈ l.advance.expanded) :
    line ∈ l.expanded := by
  unfold advance at h
  split at h
  · rename_i hexpansions
    rw [expanded, hexpansions]
    exact List.mem_cons_of_mem _ h
  · rename_i hexpansions
    rw [expanded, hexpansions]
    exact h
  · exact h

theorem Level.Leading.advance {l : Level} (h : l.Leading) : l.advance.Leading where
  lines := by
    unfold Level.advance
    split
    · exact h.lines
    · exact h.lines
    · exact fun line hline => h.lines line (List.mem_of_mem_tail hline)
  expanded := fun line hline => h.expanded line (Level.expanded_advance hline)

theorem Moment.Leading.line {m : Moment} (h : m.Leading) {line : Line}
    (hline : m.line? = some line) : line.Leading := by
  have hlevel := h.levels m.level List.mem_cons_self
  rcases Moment.of_line? hline with ⟨_, hmem, _⟩ | hmem
  · exact hlevel.lines line hmem
  · exact (hlevel.expanded line hmem).leading

namespace SourceEnv

variable {env : SourceEnv} {name contents : Text} {m m' : Moment} {s : SourceState}

theorem Moves.free (h : env.Moves m s) (hm : m.Leading) : s.Free := by
  have hstate := hm.state
  cases h with
  | read _ hgains =>
    cases hgains with
    | waits => exact ⟨hstate.templates, hstate.defining⟩
    | adds _ hadds =>
      cases hadds with
      | statement => exact ⟨hstate.templates, hstate.defining⟩
      | constant => exact ⟨hstate.templates, hstate.defining⟩
      | exports => exact ⟨hstate.templates, hstate.defining⟩
    | starts _ _ _ hbody =>
      refine ⟨hstate.templates, ?_⟩
      rintro t ⟨⟩
      rw [Template.Free, hbody]
      exact List.forall_mem_nil _
  | collected hcollected hcollects =>
    obtain ⟨_, hdefining, hline, _⟩ := Moment.of_collected? hcollected
    have ht := hstate.defining _ hdefining
    cases hcollects with
    | closes =>
      refine ⟨hstate.templates.insert ht, ?_⟩
      rintro t ⟨⟩
    | keeps _ hstart =>
      refine ⟨hstate.templates, ?_⟩
      rintro t ⟨⟩
      have hlevel := hm.levels m.level List.mem_cons_self
      exact List.forall_mem_append.2
        ⟨ht, List.forall_mem_singleton.2 ((hlevel.lines _ hline).free hstart)⟩
  | idle => exact hstate

theorem Stepped.leading (h : env.Stepped m m') (henv : env.Leading name contents)
    (hm : m.Leading) : m'.Leading := by
  refine ⟨?_, h.moves.free hm⟩
  obtain ⟨hlevel, houter⟩ := List.forall_mem_cons.1 hm.levels
  have hadvance := hlevel.advance
  cases h with
  | @read line s demand hline htaken =>
    cases htaken with
    | labels => exact List.forall_mem_cons.2 ⟨hadvance, houter⟩
    | equ => exact List.forall_mem_cons.2 ⟨hadvance, houter⟩
    | plain => exact List.forall_mem_cons.2 ⟨hadvance, houter⟩
    | included _ _ _ _ _ hlib hread =>
      refine List.forall_mem_cons.2 ⟨?_, List.forall_mem_cons.2 ⟨hadvance, houter⟩⟩
      exact ⟨henv.files _ _ _ hlib hread, List.forall_mem_nil _⟩
    | expanded hhead _ _ htemplate _ hexpansion =>
      refine List.forall_mem_cons.2 ⟨⟨hadvance.lines, ?_⟩, houter⟩
      have hfree := (hm.state.templates.find? htemplate).expansion
        ((hm.line hline).rest hhead) hexpansion
      exact List.forall_mem_append.2 ⟨hfree, hadvance.expanded⟩
  | collected => exact List.forall_mem_cons.2 ⟨hadvance, houter⟩
  | left => exact List.forall_mem_cons.2 ⟨hadvance, houter⟩
  | closed _ _ _ hlevels =>
    rw [hlevels] at houter
    exact houter

theorem Leading.occurs (henv : env.Leading name contents) (hm : env.Occurs name contents m) :
    m.Leading := by
  induction hm with
  | first =>
    refine ⟨List.forall_mem_singleton.2 ⟨henv.program, List.forall_mem_nil _⟩, ?_⟩
    refine ⟨Table.All.empty _, ?_⟩
    rintro t ⟨⟩
  | next _ hstep ih => exact (stepped_of_step hstep).leading henv ih

/-- Where the keyword stands only at the front of lines, no line of an expansion starts a
definition. -/
theorem Leading.opensLast (henv : env.Leading name contents) : env.OpensLast name contents := by
  intro m m' hm _ hopening
  obtain ⟨line, hline, hopening⟩ := Moment.exists_line_of_opening? hopening
  rcases Moment.of_line? hline with ⟨hexpansions, _⟩ | hmem
  · simp [Level.expanded, Level.advance, hexpansions]
  · have hfree := ((henv.occurs hm).levels m.level List.mem_cons_self).expanded line hmem
    rw [hfree.opening?_eq_none] at hopening
    cases hopening

end SourceEnv

/-! ## What becomes of definitions -/

theorem SourceState.templates_closeLabels (s : SourceState) :
    s.closeLabels.templates = s.templates := by
  unfold closeLabels
  split <;> rfl

/-- The name of the template that is being defined. -/
def SourceState.opened (s : SourceState) : Option Token := s.defining.map Template.name

/-- What the moments `ms` have made of definitions: `ds` are closed, and where one is open, those
in `abandoned` were given up for it. -/
structure SourceState.Defines (ms : List Moment) (ds : List Definition) (abandoned : List Token)
    (s : SourceState) : Prop where
  events : ms.flatMap Moment.events =
    ds.flatMap Definition.events ++ (abandoned ++ s.opened.toList).map .opened
  closed : s.opened = none → abandoned = []
  entries : s.templates.entries = ds.map fun d => (d.template.name.contents, d.template)
  fresh : ∀ name, s.opened = some name → name.contents ∉ s.templates.names
  overlaps : (∀ m ∈ ms, m.opening?.isSome → m.state.defining = none) ↔
    (∀ d ∈ ds, d.abandoned = []) ∧ abandoned = []

namespace SourceState.Defines

variable {ms : List Moment} {m : Moment} {ds : List Definition} {abandoned : List Token}
  {s : SourceState} {name : Token} {t : Template}

theorem empty : Defines [] [] [] {} where
  events := rfl
  closed _ := rfl
  entries := rfl
  fresh := by rintro name ⟨⟩
  overlaps := by simp

/-- A moment that neither opens nor closes a definition. -/
theorem idle (h : Defines ms ds abandoned m.state) (hevents : m.events = [])
    (hopening : m.opening? = none) (htemplates : s.templates = m.state.templates)
    (hopened : s.opened = m.state.opened) : Defines (ms ++ [m]) ds abandoned s where
  events := by
    rw [List.flatMap_append, List.flatMap_singleton, hevents, List.append_nil, hopened]
    exact h.events
  closed := hopened ▸ h.closed
  entries := htemplates ▸ h.entries
  fresh := by
    rw [hopened, htemplates]
    exact h.fresh
  overlaps := by
    rw [← h.overlaps]
    simp only [List.mem_append, List.mem_singleton, or_imp, forall_and, forall_eq, hopening,
      Option.isSome_none, Bool.false_eq_true, false_imp_iff, and_true]

/-- What was open before is abandoned. -/
theorem opens (h : Defines ms ds abandoned m.state) (hevents : m.events = [.opened name])
    (hopening : m.opening? = some name) (htemplates : s.templates = m.state.templates)
    (hopened : s.opened = some name) (hnew : name.contents ∉ m.state.templates.names) :
    Defines (ms ++ [m]) ds (abandoned ++ m.state.opened.toList) s where
  events := by
    rw [List.flatMap_append, List.flatMap_singleton, hevents, h.events, hopened]
    simp
  closed := by
    intro hnone
    cases hopened.symm.trans hnone
  entries := htemplates ▸ h.entries
  fresh := by
    intro n hn
    cases hopened.symm.trans hn
    rw [htemplates]
    exact hnew
  overlaps := by
    simp only [List.mem_append, List.mem_singleton, or_imp, forall_and, forall_eq, hopening,
      Option.isSome_some, true_imp_iff, h.overlaps, List.append_eq_nil_iff, and_assoc,
      Option.toList_eq_nil_iff, opened, Option.map_eq_none_iff]

theorem closes (h : Defines ms ds abandoned m.state) (hevents : m.events = [.closed t])
    (hopening : m.opening? = none)
    (htemplates : s.templates = m.state.templates.insert t.name.contents t)
    (hopen : m.state.opened = some t.name) (hopened : s.opened = none) :
    Defines (ms ++ [m]) (ds ++ [⟨abandoned, t⟩]) [] s where
  events := by
    rw [List.flatMap_append, List.flatMap_singleton, hevents, h.events, hopen, hopened,
      List.flatMap_append, List.flatMap_singleton, Definition.events]
    simp
  closed _ := rfl
  entries := by
    rw [htemplates, Table.entries_insert (h.fresh _ hopen), h.entries, List.map_append]
    rfl
  fresh := by
    intro n hn
    cases hopened.symm.trans hn
  overlaps := by
    simp only [List.mem_append, List.mem_singleton, or_imp, forall_and, forall_eq, hopening,
      Option.isSome_none, Bool.false_eq_true, false_imp_iff, and_true, h.overlaps]

theorem moves {env : SourceEnv} (h : ∃ ds abandoned, Defines ms ds abandoned m.state)
    (hmoves : env.Moves m s) : ∃ ds abandoned, Defines (ms ++ [m]) ds abandoned s := by
  obtain ⟨ds, abandoned, h⟩ := h
  cases hmoves with
  | @read line _ hline hgains =>
    have hevents := Moment.events_of_line? hline
    have hopening := Moment.opening?_of_line? hline
    cases hgains with
    | waits _ hkeyword =>
      rw [Line.opening?_of_keyword? hkeyword] at hevents hopening
      exact ⟨ds, abandoned, h.idle hevents hopening rfl rfl⟩
    | adds hkeyword hadds =>
      rw [Line.opening?_of_keyword? hkeyword] at hevents hopening
      refine ⟨ds, abandoned, h.idle hevents hopening ?_ (congrArg (Option.map _) hadds.defining)⟩
      cases hadds with
      | statement => rfl
      | constant => rfl
      | exports => rfl
    | starts hkeyword hname hnew _ =>
      rw [Line.opening?_eq hkeyword hname] at hevents hopening
      exact ⟨ds, _, h.opens hevents hopening rfl rfl (Table.find?_eq_none_iff.1 hnew)⟩
  | @collected t line _ hcollected hcollects =>
    obtain ⟨_, hdefining, _, hline⟩ := Moment.of_collected? hcollected
    have hevents := Moment.events_of_collected? hcollected
    have hopening := Moment.opening?_of_none hline
    have hopen : m.state.opened = some t.name := congrArg (Option.map _) hdefining
    cases hcollects with
    | closes _ hend =>
      rw [if_pos hend] at hevents
      exact ⟨_, _, h.closes hevents hopening rfl hopen rfl⟩
    | keeps hend _ =>
      rw [if_neg hend] at hevents
      exact ⟨ds, abandoned, h.idle hevents hopening rfl hopen.symm⟩
  | idle hline hcollected =>
    exact ⟨ds, abandoned, h.idle (Moment.events_of_none hline hcollected)
      (Moment.opening?_of_none hline) rfl rfl⟩

end SourceState.Defines

namespace SourceEnv

variable {env : SourceEnv} {name contents : Text} {m : Moment} {ms : List Moment} {s : SourceState}

theorem Run.defining_eq_none (h : env.Run m ms s) : s.defining = none := by
  induction h with
  | last hstep =>
    obtain ⟨rfl, hclosed, _⟩ := of_step_ended hstep
    exact hclosed
  | more _ _ ih => exact ih

theorem Run.occurs (h : env.Run m ms s) (hm : env.Occurs name contents m) :
    ∀ m' ∈ ms, env.Occurs name contents m' := by
  induction h with
  | last => exact List.forall_mem_singleton.2 hm
  | more hstep _ ih => exact List.forall_mem_cons.2 ⟨hm, ih (hm.next hstep)⟩

/-- When definitions of templates overlap. No line is read while a definition is open if and only
if the lines that start a definition are the last of all expansions they stand in; so it is where
the keyword stands at the front of its lines only. In a program that is read, every template of the
table was closed by the end of its own definition, and no other definition was opened in between.
Any definition that is not among these was abandoned for the next, and there are such if and only
if some line started a definition while another was open. -/
theorem definitions_overlap (env : SourceEnv) (name contents : Text) :
    (env.NeverOverlaps name contents ↔ env.OpensLast name contents) ∧
    (env.Leading name contents → env.NeverOverlaps name contents) ∧
    ∀ s, env.parse name contents = .ok s → ∃ (ms : List Moment) (gathered : SourceState)
        (ds : List Definition), env.Run (env.firstMoment name contents) ms gathered ∧
      ms.flatMap Moment.events = ds.flatMap Definition.events ∧
      s.templates.entries = ds.map (fun d => (d.template.name.contents, d.template)) ∧
      s.templates.names.Nodup ∧
      ((∀ m ∈ ms, m.opening?.isSome → m.state.defining = none) ↔ ∀ d ∈ ds, d.abandoned = []) ∧
      (env.NeverOverlaps name contents → ∀ d ∈ ds, d.abandoned = []) := by
  refine ⟨neverOverlaps_iff, fun h => neverOverlaps_iff.2 h.opensLast, ?_⟩
  intro s hparse
  obtain ⟨ms, gathered, hrun, rfl, _⟩ := exists_run_of_parse hparse
  obtain ⟨ds, abandoned, h⟩ : ∃ ds abandoned, gathered.Defines ms ds abandoned :=
    hrun.keeps (P := fun ms s => ∃ ds abandoned, s.Defines ms ds abandoned)
      SourceState.Defines.moves ⟨[], [], SourceState.Defines.empty⟩
  have hopened : gathered.opened = none := congrArg (Option.map _) hrun.defining_eq_none
  obtain rfl := h.closed hopened
  have hevents := h.events
  rw [hopened, Option.toList_none, List.append_nil, List.map_nil, List.append_nil] at hevents
  have hoverlaps := h.overlaps
  rw [and_iff_left rfl] at hoverlaps
  rw [SourceState.templates_closeLabels]
  refine ⟨ms, gathered, ds, hrun, hevents, h.entries, gathered.templates.distinct, hoverlaps, ?_⟩
  intro hnever
  apply hoverlaps.1
  intro m hm hopening
  refine hnever m (hrun.occurs .first m hm) ?_
  obtain ⟨line, hline, _⟩ := Moment.exists_line_of_opening? hopening
  exact Option.isSome_of_eq_some hline

end SourceEnv

namespace Sample

/-- The body of `m` starts two definitions behind labels. The line that closes one of them
stands behind the call. -/
def abandoningSource : Text := "MACRO m\na: MACRO x\nb: MACRO y\nENDM\n m\nENDM\n"

/-- A definition and a call. -/
def orderlySource : Text := "MACRO m\n .data 1 1\nENDM\n m\n"

def bareEnv : SourceEnv := ⟨assembler.machine, none⟩

/-- What the first source is read as. -/
def abandoning : SourceState := (bareEnv.parsedAfter? "t.s" abandoningSource 16).getD {}

/-- The moments of reading it. -/
def abandoningMoments : List Moment :=
  bareEnv.moments 16 (.ongoing (bareEnv.firstMoment "t.s" abandoningSource))

theorem definition_abandoned : bareEnv.parse "t.s" abandoningSource = .ok abandoning ∧
    abandoning.templates.names = (["m", "y"] : List Text) ∧
    abandoningMoments.filterMap (fun m => m.opening?.map Token.contents) =
      (["m", "x", "y"] : List Text) ∧
    ¬ bareEnv.NeverOverlaps "t.s" abandoningSource ∧
    ¬ bareEnv.OpensLast "t.s" abandoningSource ∧
    bareEnv.NeverOverlaps "t.s" orderlySource := by
  obtain ⟨hiff, _, hdefinitions⟩ := SourceEnv.definitions_overlap bareEnv "t.s" abandoningSource
  obtain ⟨hread, htemplates, hopenings, hopen⟩ :
      bareEnv.parsedAfter? "t.s" abandoningSource 16 = some abandoning ∧
      abandoning.templates.names = (["m", "y"] : List Text) ∧
      abandoningMoments.filterMap (fun m => m.opening?.map Token.contents) =
        (["m", "x", "y"] : List Text) ∧
      ¬ ∀ m ∈ abandoningMoments, m.opening?.isSome → m.state.defining = none := by
    decide +kernel
  have hparse := SourceEnv.parse_of_parsedAfter? hread
  obtain ⟨ms, gathered, ds, hrun, _, _, _, hoverlaps, hnever⟩ := hdefinitions _ hparse
  have hmoments : ms = abandoningMoments := by
    obtain ⟨_, hended, _⟩ := SourceEnv.ended_of_parsedAfter? hread
    exact (hrun.unique (SourceEnv.run_of_after hended)).1
  have hnot : ¬ bareEnv.NeverOverlaps "t.s" abandoningSource := by
    intro h
    exact hopen (hmoments ▸ hoverlaps.2 (hnever h))
  have hleading : bareEnv.Leading "t.s" orderlySource := by
    refine ⟨by decide +kernel, ?_⟩
    rintro lib file text ⟨⟩
  exact ⟨hparse, htemplates, hopenings, hnot, fun h => hnot (hiff.2 h),
    (SourceEnv.definitions_overlap bareEnv "t.s" orderlySource).2.1 hleading⟩

end Sample

end CellAsm
