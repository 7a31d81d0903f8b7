-- SUMMARY: Operands stand side by side or with one comma between them.
import CellAsm.Proofs.Guards
import Mathlib.Data.List.Basic

/-!
# Separators

Operands are separated by blanks, which are no tokens, or by commas. A list of tokens
is taken if every comma in it has an operand on either side, and its operands are then
all its other tokens. So it makes no difference which of the separators are commas.
-/
namespace CellAsm

/-- Every comma stands directly between two tokens that are none. -/
def WellSeparated (ts : List Token) : Prop :=
  ∀ before c after, ts = before ++ c :: after → c.kind = .comma →
    (∃ x ∈ before.getLast?, x.kind ≠ .comma) ∧ ∃ y ∈ after.head?, y.kind ≠ .comma

def withoutCommas (ts : List Token) : List Token := ts.filter (·.kind ≠ .comma)

/-! ## Commas behind operands -/

/-- Every comma stands directly behind a token that is none. -/
def CommasFollow (ts : List Token) : Prop :=
  ∀ before c after, ts = before ++ c :: after → c.kind = .comma →
    ∃ x ∈ before.getLast?, x.kind ≠ .comma

theorem commasFollow_nil : CommasFollow [] := by
  intro before c after hts
  exact absurd hts.symm (List.append_ne_nil_of_right_ne_nil before (List.cons_ne_nil c after))

theorem commasFollow_concat {ts : List Token} {t : Token} : CommasFollow (ts ++ [t]) ↔
    CommasFollow ts ∧ (t.kind = .comma → ∃ x ∈ ts.getLast?, x.kind ≠ .comma) := by
  constructor
  · intro h
    refine ⟨?_, h ts t [] rfl⟩
    rintro before c after rfl
    exact h before c (after ++ [t]) (by rw [List.append_assoc, List.cons_append])
  · rintro ⟨hts, ht⟩ before c after heq
    -- the comma is the last token or one of those before it
    rcases List.eq_nil_or_concat' after with rfl | ⟨after, z, rfl⟩
    · obtain ⟨rfl, hc⟩ := List.append_inj' heq rfl
      cases hc
      exact ht
    · rw [← List.cons_append, ← List.append_assoc] at heq
      exact hts before c after (List.append_inj' heq rfl).1

/-- If every comma follows an operand, then no two commas meet, and only one at the end has no
operand behind it. -/
theorem wellSeparated_iff {ts : List Token} :
    WellSeparated ts ↔ CommasFollow ts ∧ ∀ c ∈ ts.getLast?, c.kind ≠ .comma := by
  constructor
  · intro h
    refine ⟨fun before c after hts hc => (h before c after hts hc).1, ?_⟩
    intro c hlast hc
    obtain ⟨before, rfl⟩ := List.getLast?_eq_some_iff.1 hlast
    obtain ⟨y, hy, _⟩ := (h before c [] rfl hc).2
    cases hy
  · rintro ⟨hfollow, hlast⟩ before c after rfl hc
    refine ⟨hfollow before c after rfl hc, ?_⟩
    cases after with
    | nil => exact absurd hc (hlast c List.getLast?_concat)
    | cons y after =>
      refine ⟨y, rfl, ?_⟩
      intro hy
      obtain ⟨x, hx, hkind⟩ := hfollow (before ++ [c]) y after (List.append_cons ..) hy
      rw [List.getLast?_concat] at hx
      cases hx
      exact hkind hc

/-! ## Splitting -/

/-- What was read when `s` stands before the next token. -/
inductive Separator.After : Separator → List Token → Prop
  | start : After .start []
  | operand {done : List Token} {x : Token} (hx : x.kind ≠ .comma) (hdone : CommasFollow done) :
      After .operand (done ++ [x])
  | comma {done : List Token} {c : Token} (hc : c.kind = .comma)
      (hdone : CommasFollow (done ++ [c])) : After (.comma c) (done ++ [c])

/-- A comma that is to blame: the first that follows no operand, or the last token if there is
no such comma. -/
inductive Misplaced (ts : List Token) : Failure → Prop
  | unexpected {before after : List Token} {c : Token} (hts : ts = before ++ c :: after)
      (hc : c.kind = .comma) (hbefore : CommasFollow before)
      (hbare : ∀ x ∈ before.getLast?, x.kind = .comma) :
      Misplaced ts (.blame c .unexpectedComma)
  | trailing {before : List Token} {c : Token} (hts : ts = before ++ [c]) (hc : c.kind = .comma)
      (hfollow : CommasFollow ts) : Misplaced ts (.blame c .trailingComma)

namespace Separator.After

variable {s : Separator} {done : List Token}

theorem commasFollow (h : s.After done) : CommasFollow done := by
  cases h with
  | start => exact commasFollow_nil
  | operand hx hdone => exact commasFollow_concat.2 ⟨hdone, fun hc => absurd hc hx⟩
  | comma _ hdone => exact hdone

/-- At the end of the tokens, only a comma is left over. -/
theorem ends (h : s.After done) :
    Ends (fun ops => WellSeparated done ∧ ops = []) (Misplaced done) (operandsAfter s []) := by
  have hfollow := h.commasFollow
  cases h with
  | start =>
    refine .ok ⟨wellSeparated_iff.2 ⟨hfollow, ?_⟩, rfl⟩
    rintro c ⟨⟩
  | operand hx =>
    refine .ok ⟨wellSeparated_iff.2 ⟨hfollow, ?_⟩, rfl⟩
    simpa using hx
  | comma hc => exact .error (.trailing rfl hc hfollow)

/-- A comma is refused unless an operand was read right before it. -/
theorem misplaced (h : s.After done) (hs : s ≠ .operand) {c : Token} (hc : c.kind = .comma)
    (rest : List Token) : Misplaced (done ++ c :: rest) (.blame c .unexpectedComma) := by
  refine .unexpected rfl hc h.commasFollow ?_
  cases h with
  | start => rintro x ⟨⟩
  | operand => exact absurd rfl hs
  | comma hlast => simpa using hlast

theorem comma_next (h : After .operand done) {c : Token} (hc : c.kind = .comma) :
    After (.comma c) (done ++ [c]) := by
  have hfollow := h.commasFollow
  cases h with
  | @operand done x hx =>
    exact .comma hc (commasFollow_concat.2 ⟨hfollow, fun _ => ⟨x, List.getLast?_concat, hx⟩⟩)

theorem operand_next (h : s.After done) {x : Token} (hx : x.kind ≠ .comma) :
    After .operand (done ++ [x]) :=
  .operand hx h.commasFollow

end Separator.After

theorem operandsAfter_cons_operand (s : Separator) {t : Token} (ht : t.kind ≠ .comma)
    (rest : List Token) :
    operandsAfter s (t :: rest) = operandsAfter .operand rest >>= fun ops => pure (t :: ops) := by
  cases s with
  | start => exact if_neg ht
  | operand => exact if_neg ht
  | comma => exact if_neg ht

theorem operandsAfter_cons_refused {s : Separator} (hs : s ≠ .operand) {t : Token}
    (ht : t.kind = .comma) (rest : List Token) :
    operandsAfter s (t :: rest) = .error (.blame t .unexpectedComma) := by
  cases s with
  | start => exact if_pos ht
  | operand => exact absurd rfl hs
  | comma => exact if_pos ht

/-- The rest of a list is taken if the whole list is well separated, whatever was read of it
before. -/
theorem ends_operandsAfter {s : Separator} {done : List Token} (h : s.After done)
    (ts : List Token) :
    Ends (fun ops => WellSeparated (done ++ ts) ∧ ops = withoutCommas ts) (Misplaced (done ++ ts))
      (operandsAfter s ts) := by
  induction ts generalizing s done with
  | nil =>
    rw [List.append_nil]
    exact h.ends
  | cons t rest ih =>
    by_cases ht : t.kind = .comma
    · have hdrop : withoutCommas (t :: rest) = withoutCommas rest :=
        List.filter_cons_of_neg (by simp [ht])
      by_cases hs : s = .operand
      · subst hs
        rw [operandsAfter, if_pos ht, hdrop, List.append_cons]
        exact ih (h.comma_next ht)
      · rw [operandsAfter_cons_refused hs ht]
        exact .error (h.misplaced hs ht rest)
    · have hkeep : withoutCommas (t :: rest) = t :: withoutCommas rest :=
        List.filter_cons_of_pos (by simp [ht])
      rw [operandsAfter_cons_operand s ht, hkeep, List.append_cons]
      refine (ih (h.operand_next ht)).bind ?_
      rintro ops ⟨hseparated, rfl⟩
      exact .ok ⟨hseparated, rfl⟩

theorem Misplaced.not_wellSeparated {ts : List Token} {e : Failure} (h : Misplaced ts e) :
    ¬WellSeparated ts := by
  intro hts
  cases h with
  | @unexpected before after c heq hc _ hbare =>
    obtain ⟨⟨x, hx, hkind⟩, _⟩ := hts before c after heq hc
    exact hkind (hbare x hx)
  | @trailing before c heq hc =>
    obtain ⟨_, y, hy, _⟩ := hts before c [] heq hc
    cases hy

theorem ends_splitOperands (ts : List Token) :
    Ends (fun ops => WellSeparated ts ∧ ops = withoutCommas ts) (Misplaced ts)
      (splitOperands ts) := by
  rw [splitOperands_eq]
  exact ends_operandsAfter .start ts

theorem splitOperands_eq_ok_iff {ts ops : List Token} :
    splitOperands ts = .ok ops ↔ WellSeparated ts ∧ ops = withoutCommas ts := by
  have hends := ends_splitOperands ts
  constructor
  · intro h
    rw [h] at hends
    exact hends.of_ok
  · rintro ⟨hts, rfl⟩
    cases hsplit : splitOperands ts with
    | ok ops =>
      rw [hsplit] at hends
      rw [hends.of_ok.2]
    | error e =>
      rw [hsplit] at hends
      exact absurd hts hends.of_error.not_wellSeparated

/-- Operands are read from exactly the lists in which every comma stands directly between two
other tokens. They are the other tokens in their order, so that it does not matter between
which of them commas stand. In any other list a comma is to blame. -/
theorem splitOperands_exact (ts : List Token) :
    (∀ ops, splitOperands ts = .ok ops ↔ WellSeparated ts ∧ ops = withoutCommas ts) ∧
    (∀ e, splitOperands ts = .error e → Misplaced ts e) ∧
    ∀ us ops ops', splitOperands ts = .ok ops → splitOperands us = .ok ops' →
      withoutCommas ts = withoutCommas us → ops = ops' := by
  refine ⟨fun ops => splitOperands_eq_ok_iff, ?_, ?_⟩
  · intro e h
    have hends := ends_splitOperands ts
    rw [h] at hends
    exact hends.of_error
  · intro us ops ops' hts hus hsame
    rw [(splitOperands_eq_ok_iff.1 hts).2, (splitOperands_eq_ok_iff.1 hus).2, hsame]

namespace Sample

def argument (name : Text) : Token where
  kind := .identifier
  contents := name

def comma : Token where
  kind := .comma
  contents := ","

/-- It does not matter which two operands a comma stands between, but at the end it stands
wrong. -/
theorem comma_between : ∃ ops ops',
    splitOperands [argument "a", comma, argument "b", argument "c"] = .ok ops ∧
    splitOperands [argument "a", argument "b", comma, argument "c"] = .ok ops' ∧ ops = ops' ∧
    WellSeparated [argument "a", comma, argument "b", argument "c"] ∧
    splitOperands [argument "a", comma] = .error (.blame comma .trailingComma) ∧
    Misplaced [argument "a", comma] (.blame comma .trailingComma) := by
  have hearly : splitOperands [argument "a", comma, argument "b", argument "c"] =
      .ok [argument "a", argument "b", argument "c"] := rfl
  have hlate : splitOperands [argument "a", argument "b", comma, argument "c"] =
      .ok [argument "a", argument "b", argument "c"] := rfl
  have hend : splitOperands [argument "a", comma] = .error (.blame comma .trailingComma) := rfl
  obtain ⟨hok, _, hsame⟩ := splitOperands_exact [argument "a", comma, argument "b", argument "c"]
  obtain ⟨_, herror, _⟩ := splitOperands_exact [argument "a", comma]
  exact ⟨_, _, hearly, hlate, hsame _ _ _ hearly hlate rfl, ((hok _).1 hearly).1, hend,
    herror _ hend⟩

end Sample

end CellAsm
