import DocLint.Diagnostic.Collector
import Mathlib

/-!
# What a collector holds

A collector may be asked to record, to change its handler and to be emptied, in any order.  What it
holds in the end can be told from the requests alone: the diagnostics behind the last emptying, their
numbers, and what the handlers were shown, which emptying does not touch.

* `after_eq`: every request has one of four effects.
* `Accounts.step`: an effect keeps the account.
* `run_accounts`: what a collector holds after any requests.
-/

namespace DocLint

namespace Collector

variable {σ : Type}

/-- What is done with a diagnostic that is shown. -/
abbrev Handler (σ : Type) := Diagnostic → σ → σ

/-- What a collector can be asked. -/
inductive Request (σ : Type)
  | error (p : Position) (message : Bytes)
  | report (d : Diagnostic)
  | reportCode (name : Bytes) (span : Span) (suggestion : Option Bytes)
      (arguments : List (Bytes × Bytes))
  | setHandler (handle : Handler σ)
  | removeHandler
  | take
  | clear

/-- What a collector answers. -/
inductive Answer
  | done
  | taken (entries : List Diagnostic)
  | refused (e : CollectorError)

/-- Answers a request. -/
def perform (c : Collector σ) : Request σ → Answer × Collector σ
  | .error p message => (.done, c.error p message)
  | .report d => (.done, c.emit d)
  | .reportCode name span suggestion arguments =>
    match c.reportCode name span suggestion arguments with
    | .ok reported => (.done, reported)
    | .error e => (.refused e, c)
  | .setHandler handle => (.done, c.setHandler handle)
  | .removeHandler => (.done, c.removeHandler)
  | .take => (.taken c.take.1, c.take.2)
  | .clear => (.done, c.clear)

/-- Answers some requests, one after the other. -/
def run (c : Collector σ) (requests : List (Request σ)) : Collector σ :=
  requests.foldl (fun c q => (c.perform q).2) c

/-! ### What requests come to -/

/-- What a request comes to, as far as the collector is concerned. -/
inductive Effect (σ : Type)
  | nothing
  | emits (d : Diagnostic)
  | installs (handler : Option (Handler σ))
  | empties

namespace Effect

/-- The diagnostic that is emitted. -/
def emission? : Effect σ → Option Diagnostic
  | emits d => some d
  | _ => none

/-- The effect empties the collector. -/
def isEmptying : Effect σ → Bool
  | empties => true
  | _ => false

/-- The handler from now on, if there is a change. -/
def handler? : Effect σ → Option (Option (Handler σ))
  | installs handler => some handler
  | _ => none

/-- The collector after the effect. -/
def apply (c : Collector σ) : Effect σ → Collector σ
  | nothing => c
  | emits d => c.emit d
  | installs handler => { c with handler }
  | empties => c.clear

end Effect

/-- Every field of the code's message has an argument. -/
def Supplied (code : Code) (arguments : List (Bytes × Bytes)) : Prop :=
  ∀ field ∈ code.template.fields, (arguments.lookup field).isSome

instance (code : Code) (arguments : List (Bytes × Bytes)) : Decidable (Supplied code arguments) :=
  inferInstanceAs (Decidable (∀ field ∈ code.template.fields, (arguments.lookup field).isSome))

/-- Why a finding of the catalogue is refused. -/
inductive Unreportable (name : Bytes) (arguments : List (Bytes × Bytes)) : CollectorError → Prop
  | unknown (h : Code.ofName? name = none) : Unreportable name arguments (.unknownCode name)
  | missing {code : Code} {field : Bytes} (h : Code.ofName? name = some code)
      (hfield : field ∈ code.template.fields) (hnone : arguments.lookup field = none) :
      Unreportable name arguments (.message (.missingArgument field))

/-- The effect of a request.  A finding of the catalogue is emitted if its code is known and its
message can be filled. -/
def Request.effect : Request σ → Effect σ
  | error p message => .emits (.error p message)
  | report d => .emits d
  | reportCode name span suggestion arguments =>
    match Code.ofName? name with
    | none => .nothing
    | some code =>
      if Supplied code arguments then .emits (code.finding span suggestion arguments) else .nothing
  | setHandler handle => .installs (some handle)
  | removeHandler => .installs none
  | take => .empties
  | clear => .empties

/-- The diagnostics that were emitted since the last emptying. -/
def emittedSince (effects : List (Effect σ)) : List Diagnostic :=
  (effects.rtakeWhile fun e => !e.isEmptying).filterMap Effect.emission?

/-- The handler that is installed after some effects: the one of the last change. -/
def installedBy (effects : List (Effect σ)) : Option (Handler σ) :=
  (effects.reverse.findSome? Effect.handler?).join

/-- What an installed handler is shown of an effect. -/
def showing : Option (Handler σ) → Effect σ → List (Handler σ × Diagnostic)
  | some handle, .emits d => [(handle, d)]
  | _, _ => []

/-- What was emitted while a handler was installed, together with that handler. -/
def shownBy (effects : List (Effect σ)) : List (Handler σ × Diagnostic) :=
  (effects.mapIdx fun i e => showing (installedBy (effects.take i)) e).flatten

/-- The collector holds what it has to hold after some effects on an empty one without a handler. -/
structure Accounts (start : σ) (effects : List (Effect σ)) (c : Collector σ) : Prop where
  entries_eq : c.entries = emittedSince effects
  errors_eq : c.errors.toNat = c.entries.countP (·.severity = .error) % 2 ^ 32
  warnings_eq : c.warnings.toNat = c.entries.countP (·.severity = .warning) % 2 ^ 32
  handler_eq : c.handler = installedBy effects
  /-- Every handler was called once for each emission while it was installed, in order. -/
  state_eq : c.state = (shownBy effects).foldl (fun s shown => shown.1 shown.2 s) start

variable {start : σ} {effects : List (Effect σ)} {c : Collector σ}

/-! ### One more effect -/

theorem emittedSince_concat (effects : List (Effect σ)) (e : Effect σ) :
    emittedSince (effects ++ [e]) =
      if e.isEmptying then [] else emittedSince effects ++ e.emission?.toList := by
  unfold emittedSince
  rw [List.rtakeWhile_concat]
  cases e <;> simp [Effect.isEmptying, Effect.emission?]

theorem installedBy_concat (effects : List (Effect σ)) (e : Effect σ) :
    installedBy (effects ++ [e]) = e.handler?.getD (installedBy effects) := by
  unfold installedBy
  rw [List.reverse_concat, List.findSome?_cons]
  cases e <;> rfl

theorem shownBy_concat (effects : List (Effect σ)) (e : Effect σ) :
    shownBy (effects ++ [e]) = shownBy effects ++ showing (installedBy effects) e := by
  have hfront : (effects.mapIdx fun i e' => showing (installedBy ((effects ++ [e]).take i)) e') =
      effects.mapIdx fun i e' => showing (installedBy (effects.take i)) e' := by
    refine List.mapIdx_eq_mapIdx_iff.2 fun i hi => ?_
    rw [List.take_append_of_le_length (Nat.le_of_lt hi)]
  unfold shownBy
  rw [List.mapIdx_concat, List.flatten_concat, hfront, List.take_left]

/-- Only what is emitted is shown. -/
theorem shownBy_concat_of_silent {e : Effect σ} (h : e.emission? = none) :
    shownBy (effects ++ [e]) = shownBy effects := by
  rw [shownBy_concat]
  cases e with
  | emits d => cases h
  | _ => cases installedBy effects <;> exact List.append_nil _

/-- A counter that counts one more. -/
theorem toNat_succ_of_mod {n : UInt32} {k : Nat} (h : n.toNat = k % 2 ^ 32) :
    (n + 1).toNat = (k + 1) % 2 ^ 32 := by
  rw [UInt32.toNat_add, h]
  simp

/-- A diagnostic that is emitted is recorded, counted and shown. -/
theorem Accounts.emit (h : Accounts start effects c) (d : Diagnostic) :
    Accounts start (effects ++ [.emits d]) (c.emit d) where
  entries_eq := by
    rw [entries_emit, h.entries_eq, emittedSince_concat]
    rfl
  errors_eq := by
    rw [errors_emit, entries_emit, List.countP_append, List.countP_singleton]
    by_cases herror : d.severity = .error
    · simpa [herror] using toNat_succ_of_mod h.errors_eq
    · simpa [herror] using h.errors_eq
  warnings_eq := by
    rw [warnings_emit, entries_emit, List.countP_append, List.countP_singleton]
    by_cases hwarning : d.severity = .warning
    · simpa [hwarning] using toNat_succ_of_mod h.warnings_eq
    · simpa [hwarning] using h.warnings_eq
  handler_eq := h.handler_eq.trans (installedBy_concat effects (.emits d)).symm
  state_eq := by
    rw [shownBy_concat, ← h.handler_eq, List.foldl_append, ← h.state_eq]
    unfold Collector.emit
    cases c.handler <;> rfl

/-- A change of the handler touches nothing else. -/
theorem Accounts.install (h : Accounts start effects c) (handler : Option (Handler σ)) :
    Accounts start (effects ++ [.installs handler]) { c with handler } where
  entries_eq := by
    rw [emittedSince_concat, ← h.entries_eq]
    exact (List.append_nil _).symm
  errors_eq := h.errors_eq
  warnings_eq := h.warnings_eq
  handler_eq := (installedBy_concat effects (.installs handler)).symm
  state_eq := by
    rw [shownBy_concat_of_silent rfl]
    exact h.state_eq

/-- Nothing is left behind an emptying but the handler and what the handlers were shown. -/
theorem Accounts.clear (h : Accounts start effects c) :
    Accounts start (effects ++ [.empties]) c.clear where
  entries_eq := (emittedSince_concat effects .empties).symm
  errors_eq := rfl
  warnings_eq := rfl
  handler_eq := h.handler_eq.trans (installedBy_concat effects .empties).symm
  state_eq := by
    rw [shownBy_concat_of_silent rfl]
    exact h.state_eq

/-- An effect keeps the account. -/
theorem Accounts.step (h : Accounts start effects c) (e : Effect σ) :
    Accounts start (effects ++ [e]) (e.apply c) := by
  cases e with
  | nothing =>
      refine ⟨?_, h.errors_eq, h.warnings_eq, ?_, ?_⟩
      · rw [emittedSince_concat, ← h.entries_eq]
        exact (List.append_nil _).symm
      · exact h.handler_eq.trans (installedBy_concat effects .nothing).symm
      · rw [shownBy_concat_of_silent rfl]
        exact h.state_eq
  | emits d => exact h.emit d
  | installs handler => exact h.install handler
  | empties => exact h.clear

/-! ### Requests -/

/-- A finding of the catalogue is refused with a reason, or it is emitted. -/
theorem reportCode_cases (c : Collector σ) (name : Bytes) (span : Span) (suggestion : Option Bytes)
    (arguments : List (Bytes × Bytes)) :
    (∃ e, Unreportable name arguments e ∧
      c.reportCode name span suggestion arguments = .error e) ∨
    ∃ code, Code.ofName? name = some code ∧ Supplied code arguments ∧
      c.reportCode name span suggestion arguments =
        .ok (c.emit (code.finding span suggestion arguments)) := by
  unfold reportCode Code.report
  cases hname : Code.ofName? name with
  | none => exact .inl ⟨_, .unknown hname, rfl⟩
  | some code =>
      by_cases hsupplied : Supplied code arguments
      · refine .inr ⟨code, rfl, hsupplied, ?_⟩
        simp only [(Template.fill_eq_ok_iff code.template arguments).2 hsupplied]
        rfl
      · obtain ⟨field, hfield, hnone, hfill⟩ := Template.fill_eq_error hsupplied
        refine .inl ⟨_, .missing hname hfield hnone, ?_⟩
        simp only [hfill]
        rfl

/-- What is refused has no effect. -/
theorem Unreportable.effect_eq {name : Bytes} {arguments : List (Bytes × Bytes)} {e : CollectorError}
    (h : Unreportable name arguments e) (span : Span) (suggestion : Option Bytes) :
    Request.effect (σ := σ) (.reportCode name span suggestion arguments) = .nothing := by
  cases h with
  | unknown hname => simp only [Request.effect, hname]
  | missing hname hfield hnone =>
      have hmissing : ¬ Supplied _ arguments := fun hsupplied => by
        simpa [hnone] using hsupplied _ hfield
      simp only [Request.effect, hname, if_neg hmissing]

/-- A request changes a collector by its effect. -/
theorem perform_snd (c : Collector σ) (q : Request σ) : (c.perform q).2 = q.effect.apply c := by
  cases q with
  | reportCode name span suggestion arguments =>
      rcases reportCode_cases c name span suggestion arguments with
        ⟨e, hwhy, hreport⟩ | ⟨code, hname, hsupplied, hreport⟩
      · rw [hwhy.effect_eq]
        simp only [perform, hreport]
        rfl
      · simp only [perform, hreport, Request.effect, hname, if_pos hsupplied]
        rfl
  | _ => rfl

/-- What is refused leaves the collector as it is. -/
theorem perform_of_unreportable {name : Bytes} {arguments : List (Bytes × Bytes)}
    (h : ∃ e, Unreportable name arguments e) (c : Collector σ) (span : Span)
    (suggestion : Option Bytes) :
    ∃ e, Unreportable name arguments e ∧
      c.perform (.reportCode name span suggestion arguments) = (.refused e, c) := by
  rcases reportCode_cases c name span suggestion arguments with
    ⟨e, hwhy, hreport⟩ | ⟨code, hname, hsupplied, hreport⟩
  · exact ⟨e, hwhy, by simp only [perform, hreport]⟩
  · -- A finding that is emitted is not refused for any reason.
    obtain ⟨e, hunknown | ⟨hname', hfield, hnone⟩⟩ := h
    · rw [hname] at hunknown
      cases hunknown
    · rw [hname] at hname'
      cases hname'
      simpa [hnone] using hsupplied _ hfield

theorem accounts_run (start : σ) (requests : List (Request σ)) :
    Accounts start (requests.map Request.effect) (run { state := start } requests) := by
  -- The last request comes after all others, so the induction takes it off first.
  induction requests using List.reverseRecOn with
  | nil => exact ⟨rfl, rfl, rfl, rfl, rfl⟩
  | append_singleton front q ih =>
      have hstep := ih.step q.effect
      rw [← perform_snd] at hstep
      rw [List.map_append, run, List.foldl_append]
      exact hstep

/-- What a collector holds that was empty and without a handler, after any requests in any order:
the diagnostics that were emitted since it was emptied last, in order; the numbers of the errors and
of the warnings among them, as far as a counter of 32 bits tells; and the state of the handlers, each
of which was called once for every diagnostic emitted while it was installed.  There are errors if
their counter is not zero.  To take the diagnostics is to be told them all and to empty the
collector, which leaves the handler in its place; and a finding of the catalogue whose code is
unknown, or whose message lacks an argument, is refused and changes nothing. -/
theorem run_accounts (start : σ) (requests : List (Request σ)) :
    let c := run { state := start } requests
    Accounts start (requests.map Request.effect) c ∧
      (c.hasErrors = true ↔ 0 < c.errors.toNat) ∧
      c.perform .take = (.taken (emittedSince (requests.map Request.effect)),
        { c with entries := [], errors := 0, warnings := 0 }) ∧
      ∀ name span suggestion arguments, (∃ e, Unreportable name arguments e) →
        ∃ e, Unreportable name arguments e ∧
          c.perform (.reportCode name span suggestion arguments) = (.refused e, c) := by
  intro c
  have haccounts : Accounts start (requests.map Request.effect) c := accounts_run start requests
  refine ⟨haccounts, ?_, ?_, fun name span suggestion arguments h =>
    perform_of_unreportable h c span suggestion⟩
  · exact decide_eq_true_iff
  · rw [← haccounts.entries_eq]
    rfl

end Collector

end DocLint
