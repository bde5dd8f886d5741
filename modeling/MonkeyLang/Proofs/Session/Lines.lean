import MonkeyLang.Proofs.Eval.Sequence
import MonkeyLang.Session.Basic

/-!
# The lines of a session

A session may be given a program line by line. Lines that run nothing, which are blank ones,
commands and those with syntax errors, may stand anywhere in between (`Interspersed`) and leave the
session as it is (`handle_idle`). So the response to the last line of a program is the value of the
program as a single source, and the session is left with the same store (`interpretIn_join_lines`).
-/

namespace MonkeyLang

namespace Session

/-- The lines that are commands. -/
def commands : List String := [":help", ":h", ":env", ":quit", ":q"]

/-- A line that runs nothing: a blank one, a command, or one with syntax errors. -/
def Idle (line : String) : Prop :=
  Blank.trim line = "" ∨ Blank.trim line ∈ commands ∨ (parse (Blank.trim line)).errors ≠ []

/-- A source as it is typed: without blanks at its ends, and no command. -/
structure IsLine (source : String) : Prop where
  trim_eq : Blank.trim source = source
  not_command : source ∉ commands

instance (line : String) : Decidable (Idle line) :=
  inferInstanceAs (Decidable (_ ∨ _ ∨ _))

instance (source : String) : Decidable (IsLine source) :=
  decidable_of_iff (Blank.trim source = source ∧ source ∉ commands)
    ⟨fun h => ⟨h.1, h.2⟩, fun h => ⟨h.1, h.2⟩⟩

/-- The lines are the sources, in order, with idle lines anywhere in between. -/
inductive Interspersed : List String → List String → Prop
  | nil : Interspersed [] []
  | source {a lines sources} : Interspersed lines sources →
      Interspersed (a :: lines) (a :: sources)
  | idle {line lines sources} : Idle line → Interspersed lines sources →
      Interspersed (line :: lines) sources

/-- The responses to lines in a row, and the session behind them. -/
def handleAll (depth : Nat) : Session → List String → Option (List Response × Session)
  | s, [] => some ([], s)
  | s, line :: rest =>
    match s.handle depth line with
    | none => none
    | some (response, s) => (handleAll depth s rest).map fun r => (response :: r.1, r.2)

/-! ## One line -/

/-- A line that runs nothing leaves the session as it is. -/
theorem handle_idle {line : String} (h : Idle line) (depth : Nat) (s : Session) :
    ∃ response, s.handle depth line = some (response, s) := by
  unfold handle
  split
  case h_7 hblank hquit hq hhelp hh henv =>
    have hnot : Blank.trim line ∉ commands := by
      simp only [commands, List.mem_cons, List.not_mem_nil, or_false, not_or]
      exact ⟨hhelp, hh, henv, hquit, hq⟩
    have herr : (parse (Blank.trim line)).errors ≠ [] := (h.resolve_left hblank).resolve_left hnot
    obtain ⟨e, es, hcons⟩ := List.exists_cons_of_ne_nil herr
    rw [interpretIn_of_errors hcons]
    exact ⟨_, rfl⟩
  all_goals exact ⟨_, rfl⟩

/-- A line that is a source is run. -/
theorem handle_isLine {source : String} (h : IsLine source) (hne : source ≠ "") (depth : Nat)
    (s : Session) :
    s.handle depth source =
      (interpretIn depth source scope s.store).map fun r => (respond r.1, ⟨r.2⟩) := by
  unfold handle
  rw [h.trim_eq]
  split
  case h_1 => exact absurd rfl hne
  case h_7 => rfl
  all_goals exact absurd (by decide) h.not_command

theorem handle_source {source : String} (h : IsLine source) (hc : Complete source) (depth : Nat)
    (s : Session) :
    s.handle depth source =
      (interpretIn depth source scope s.store).map fun r => (respond r.1, ⟨r.2⟩) :=
  handle_isLine h hc.ne_empty depth s

/-- A line leaves the session as it is, or as a source does. -/
theorem handle_cases {depth : Nat} {s s' : Session} {line : String} {response : Response}
    (h : s.handle depth line = some (response, s')) :
    s' = s ∨ ∃ r, interpretIn depth (Blank.trim line) scope s.store = some (r, s'.store) := by
  unfold handle at h
  split at h
  case h_7 =>
    obtain ⟨⟨r, t⟩, hrun, heq⟩ := Option.map_eq_some_iff.1 h
    cases heq
    exact .inr ⟨r, hrun⟩
  all_goals
    cases h
    exact .inl rfl

/-! ## Lines in a row -/

theorem handleAll_cons {depth : Nat} {s s' : Session} {line : String} {response : Response}
    (h : s.handle depth line = some (response, s')) (rest : List String) :
    handleAll depth s (line :: rest) =
      (handleAll depth s' rest).map fun r => (response :: r.1, r.2) := by
  rw [handleAll, h]

theorem handleAll_append (depth : Nat) (s : Session) (front back : List String) :
    handleAll depth s (front ++ back) =
      (handleAll depth s front).bind fun r =>
        (handleAll depth r.2 back).map fun r' => (r.1 ++ r'.1, r'.2) := by
  induction front generalizing s with
  | nil => simp [handleAll]
  | cons line front ih =>
    rcases h : s.handle depth line with _ | ⟨response, s'⟩
    · simp only [List.cons_append, handleAll, h, Option.bind_none]
    · rw [List.cons_append, handleAll_cons h, handleAll_cons h, ih, Option.map_bind,
        Option.bind_map]
      refine congrArg _ (funext fun r => ?_)
      simp only [Function.comp_apply, Option.map_map, List.cons_append]
      rfl

theorem map_handleAll_cons {depth : Nat} {s s' : Session} {line : String} {response : Response}
    {lines : List String} {t? : Option Store} (h : s.handle depth line = some (response, s'))
    (hrest : (handleAll depth s' lines).map (fun r => (r.1.length, r.2)) =
      t?.map fun t => (lines.length, ⟨t⟩)) :
    (handleAll depth s (line :: lines)).map (fun r => (r.1.length, r.2)) =
      t?.map fun t => ((line :: lines).length, ⟨t⟩) := by
  have hsucc := congrArg (Option.map fun r : Nat × Session => (r.1 + 1, r.2)) hrest
  rw [Option.map_map, Option.map_map] at hsucc
  rw [handleAll_cons h, Option.map_map]
  exact hsucc

/-- Sources with idle lines in between get a response each, and so do the lines in between; the
session is left as the sources leave it. -/
theorem handleAll_interspersed {lines sources : List String} (h : Interspersed lines sources)
    (hs : ∀ a ∈ sources, IsLine a ∧ Complete a) (depth : Nat) (s : Session) :
    (handleAll depth s lines).map (fun r => (r.1.length, r.2)) =
      (storeAfter depth scope sources s.store).map fun t => (lines.length, ⟨t⟩) := by
  induction h generalizing s with
  | nil => rfl
  | @source a lines sources _ ih =>
    obtain ⟨hline, hc⟩ := hs a List.mem_cons_self
    have htail : ∀ b ∈ sources, IsLine b ∧ Complete b := fun b hb =>
      hs b (List.mem_cons_of_mem a hb)
    have hrun := handle_source hline hc depth s
    rw [storeAfter]
    rcases hr : interpretIn depth a scope s.store with _ | r
    · rw [hr] at hrun
      rw [handleAll, hrun]
      rfl
    · rw [hr] at hrun
      exact map_handleAll_cons hrun (ih htail ⟨r.2⟩)
  | @idle line lines sources hidle _ ih =>
    obtain ⟨response, hrun⟩ := handle_idle hidle depth s
    exact map_handleAll_cons hrun (ih hs s)

theorem interspersed_of_idle {lines : List String} (h : ∀ line ∈ lines, Idle line) :
    Interspersed lines [] := by
  induction lines with
  | nil => exact .nil
  | cons line lines ih =>
    exact .idle (h line List.mem_cons_self) (ih fun l hl => h l (List.mem_cons_of_mem line hl))

/-- Idle lines in a row leave the session as it is. -/
theorem handleAll_idle {lines : List String} (h : ∀ line ∈ lines, Idle line) (depth : Nat)
    (s : Session) : ∃ responses, handleAll depth s lines = some (responses, s) := by
  have hall := handleAll_interspersed (interspersed_of_idle h) (by simp) depth s
  rcases hr : handleAll depth s lines with _ | ⟨responses, s'⟩
  · rw [hr] at hall
    cases hall
  · rw [hr] at hall
    obtain ⟨-, hs⟩ := Prod.mk.inj (Option.some.inj hall)
    obtain rfl : s' = s := hs
    exact ⟨responses, rfl⟩

/-- A source with idle lines around it and sources in front: its response, and the store it
leaves. -/
theorem handleAll_last {before after sources : List String} {last : String}
    (hs : ∀ a ∈ sources ++ [last], IsLine a ∧ Complete a) (hbefore : Interspersed before sources)
    (hafter : ∀ line ∈ after, Idle line) (depth : Nat) (s : Session) :
    (handleAll depth s (before ++ last :: after)).map
        (fun r => (r.1[before.length]?, r.2.store)) =
      ((storeAfter depth scope sources s.store).bind (interpretIn depth last scope)).map
        fun r => (some (respond r.1), r.2) := by
  have hlast := hs last (by simp)
  have hall := handleAll_interspersed hbefore (fun a ha => hs a (by simp [ha])) depth s
  rw [handleAll_append]
  rcases ht : storeAfter depth scope sources s.store with _ | t
  · rw [ht, Option.map_none, Option.map_eq_none_iff] at hall
    rw [hall]
    rfl
  · rw [ht, Option.map_some, Option.map_eq_some_iff] at hall
    obtain ⟨⟨responses, s'⟩, hrun, heq⟩ := hall
    obtain ⟨hlen, rfl⟩ := Prod.mk.inj heq
    rw [hrun, Option.bind_some, Option.bind_some]
    have hsource := handle_source hlast.1 hlast.2 depth ⟨t⟩
    rcases hr : interpretIn depth last scope t with _ | r
    · rw [hr] at hsource
      rw [handleAll, hsource]
      rfl
    · rw [hr] at hsource
      obtain ⟨others, hothers⟩ := handleAll_idle hafter depth ⟨r.2⟩
      rw [handleAll_cons hsource, hothers]
      simp [← hlen]

end Session

/-! ## A program line by line -/

/-- Let all of the sources be complete, and all but the last run through, one after the other. As a
single source they have no syntax errors, and come to what the last of them comes to after the
others, with the same store. In a session that is given the sources as lines, with idle lines
anywhere in between and behind, the response to the last one prints the value of the single source,
and the session ends with its store. -/
theorem interpretIn_join_lines (depth : Nat) (sources : List String) (last : String) (s : Store)
    (hc : ∀ a ∈ sources ++ [last], Complete a) :
    (parse (String.join (sources ++ [last]))).errors = [] ∧
    (∀ σ, AllRunThrough depth σ sources s →
      interpretIn depth (String.join (sources ++ [last])) σ s =
        (storeAfter depth σ sources s).bind (interpretIn depth last σ)) ∧
    (AllRunThrough depth Session.scope sources s →
      (∀ a ∈ sources ++ [last], Session.IsLine a) →
      ∀ before after, Session.Interspersed before sources →
        (∀ line ∈ after, Session.Idle line) →
        (Session.handleAll depth ⟨s⟩ (before ++ last :: after)).map
            (fun r => (r.1[before.length]?, r.2.store)) =
          ((parse (String.join (sources ++ [last]))).program.evaluate depth Session.scope s).map
            fun r => (some (.print r.1.inspect), r.2)) := by
  have hlast : Complete last := hc last (by simp)
  have hfront : ∀ a ∈ sources, Complete a := fun a ha => hc a (by simp [ha])
  have herr := (join_append_singleton_complete hfront hlast).errors_eq_nil
  refine ⟨herr, fun σ hrun => interpretIn_join hfront hlast hrun,
    fun hrun hline before after hbefore hafter => ?_⟩
  have hall : ∀ a ∈ sources ++ [last], Session.IsLine a ∧ Complete a := fun a ha =>
    ⟨hline a ha, hc a ha⟩
  rw [Session.handleAll_last hall hbefore hafter depth ⟨s⟩, ← interpretIn_join hfront hlast hrun,
    interpretIn_of_clean herr, Option.map_map]
  rfl

/-- Two lines and a third, with a command, a blank line and a line with a syntax error. -/
theorem interpretIn_join_lines_closure :
    let sources := ["let x = 1;", "let f = fn(y) \x7b return x + y; \x7d;"]
    let before := ["let x = 1;", ":env", "let = 2;", "let f = fn(y) \x7b return x + y; \x7d;", "  "]
    (∀ a ∈ sources ++ ["f(2);"], Complete a ∧ Session.IsLine a) ∧
    AllRunThrough 9 Session.scope sources .initial ∧ Session.Interspersed before sources ∧
    Session.Idle ":q" ∧
    (parse (String.join (sources ++ ["f(2);"]))).errors = [] ∧
    interpretIn 9 (String.join (sources ++ ["f(2);"])) Session.scope .initial =
      (storeAfter 9 Session.scope sources .initial).bind (interpretIn 9 "f(2);" Session.scope) ∧
    (Session.handleAll 9 ⟨.initial⟩ (before ++ ["f(2);", ":q"])).map
        (fun r => (r.1[5]?, r.2.store)) =
      ((parse (String.join (sources ++ ["f(2);"]))).program.evaluate 9 Session.scope .initial).map
        fun r => (some (.print r.1.inspect), r.2) := by
  intro sources before
  have hc : ∀ a ∈ sources ++ ["f(2);"], Complete a := by decide +kernel
  have hline : ∀ a ∈ sources ++ ["f(2);"], Session.IsLine a := by decide +kernel
  have hrun : AllRunThrough 9 Session.scope sources .initial := by decide +kernel
  have hidle : ∀ line ∈ [":env", "let = 2;", "  ", ":q"], Session.Idle line := by decide +kernel
  have hbefore : Session.Interspersed before sources :=
    .source (.idle (hidle _ (by simp)) (.idle (hidle _ (by simp))
      (.source (.idle (hidle _ (by simp)) .nil))))
  have hafter : ∀ line ∈ [":q"], Session.Idle line := fun line hl => hidle line (by simp_all)
  obtain ⟨herr, hjoin, hsession⟩ := interpretIn_join_lines 9 sources "f(2);" .initial hc
  exact ⟨fun a ha => ⟨hc a ha, hline a ha⟩, hrun, hbefore, hafter _ (by simp), herr,
    hjoin _ hrun, hsession hrun hline before [":q"] hbefore hafter⟩

end MonkeyLang
