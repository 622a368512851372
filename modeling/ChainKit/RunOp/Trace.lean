import ChainKit.RunOp.Rules

/-! What a call leaves behind, whether or not its waits are interrupted: the provider that it
tries first, the one that served it, and where its error comes from. -/
namespace ChainKit
variable {ι ε δ : Type}

/-- Between two worlds of a call the invocations `ds` are made, and the selection is left alone. -/
structure Tries (w : World ι ε δ) (ds : List (Dispatch ι δ)) (w' : World ι ε δ) : Prop where
  log : w'.log = w.log ++ ds
  selector : w'.pm.selector = w.pm.selector
  selectedProvider : w'.pm.selectedProvider = w.pm.selectedProvider

namespace Tries
variable {w w' w'' : World ι ε δ} {ds ds' : List (Dispatch ι δ)}

theorem append (h : Tries w ds w') (h' : Tries w' ds' w'') : Tries w (ds ++ ds') w'' := by
  refine ⟨?_,h'.selector.trans h.selector,h'.selectedProvider.trans h.selectedProvider⟩
  rw [h'.log,h.log,List.append_assoc]

theorem wait (w : World ι ε δ) (b : Prop) [Decidable b] :
    Tries w [] (if b then { w with waited := w.waited+1 } else w) := by
  split_ifs
  · exact ⟨by simp,rfl,rfl⟩
  · exact ⟨by simp,rfl,rfl⟩

theorem mark (h : Tries w ds w') (name : String) : Tries w ds (w'.recordFailedProvider name) :=
  ⟨h.log,h.selector,h.selectedProvider⟩

theorem attemptOnce [ScoringEngine ε] (w : World ι ε δ) (host : Host) (call : Call ι δ)
    (p : ProviderConfig ι) :
    Tries w [w.invocation host call p] (w.attemptOnce host call p).2 := by
  have hsame : (w.attemptOnce host call p).2.pm.selector = w.pm.selector ∧
      (w.attemptOnce host call p).2.pm.selectedProvider = w.pm.selectedProvider := by
    simp only [World.attemptOnce]
    cases call.op w.invoked p.provider with
    | ok data => exact ⟨rfl,rfl⟩
    | error err =>
      simp only [World.recordFailureWithError,ProviderManager.recordFailureWithError]
      split_ifs
      · exact ⟨rfl,rfl⟩
      · exact ⟨rfl,rfl⟩
  exact ⟨w.attemptOnce_log host call p,hsame.1,hsame.2⟩

end Tries

namespace World
variable [ScoringEngine ε] (host : Host) (call : Call ι δ)

/-- The retry loop invokes the operation on its provider only, at least once when it starts, and
it returns no error only after a success. -/
theorem attemptLoop_tries (p : ProviderConfig ι) (n attempts : ℕ) (lastErr : Option GoError)
    (w : World ι ε δ) (hn : lastErr = none → 0 < n) :
    ∃ ds, Tries w ds (attemptLoop host call p n attempts lastErr w).2 ∧
      (∀ d ∈ ds, d.provider = p) ∧ (attempts = 0 → 0 < n → ds ≠ []) ∧
      ((attemptLoop host call p n attempts lastErr w).1.2.2 = none →
        ∃ ds₀ d data, ds = ds₀ ++ [d] ∧ d.result = .ok data) := by
  induction n generalizing attempts lastErr w with
  | zero =>
    refine ⟨[],⟨by simp [attemptLoop],rfl,rfl⟩,by simp,by simp,?_⟩
    intro hnone
    exact absurd (hn hnone) (lt_irrefl 0)
  | succ n ih =>
    simp only [attemptLoop]
    have hwait := Tries.wait w (0 < attempts)
    generalize (if 0 < attempts then { w with waited := w.waited+1 } else w) = w₁ at hwait ⊢
    cases hcancel : (if 0 < attempts then call.wait w.waited else none) with
    | some err =>
      refine ⟨[],hwait,by simp,?_,by simp⟩
      intro h0
      simp [h0] at hcancel
    | none =>
      have hone := hwait.append (Tries.attemptOnce w₁ host call p)
      simp only [attemptOnce_fst]
      cases hop : call.op w₁.invoked p.provider with
      | ok data =>
        refine ⟨_,hone,?_,by simp,fun _ => ⟨[],_,data,rfl,hop⟩⟩
        intro d hd
        simp only [List.nil_append,List.mem_singleton] at hd
        rw [hd]
        rfl
      | error err =>
        obtain ⟨ds,hds,hprov,-,hok⟩ := ih (attempts+1) (some err)
          (w₁.attemptOnce host call p).2 (by simp)
        refine ⟨_,hone.append hds,?_,by simp,?_⟩
        · intro d hd
          simp only [List.nil_append,List.cons_append,List.mem_cons] at hd
          rcases hd with rfl | hd
          · rfl
          · exact hprov d hd
        · intro hnone
          obtain ⟨ds₀,d,data,rfl,hd⟩ := hok hnone
          exact ⟨w₁.invocation host call p :: ds₀,d,data,rfl,hd⟩

/-- The loop over the providers begins with the first of them. When it returns no error, its
last invocation succeeded and the selection is told so. -/
theorem runOpLoop_tries (policy : RetryPolicy) (start : ℤ) (ps : List (ProviderConfig ι))
    (total : ℕ) (lastErr : Option GoError) (w : World ι ε δ) :
    ∃ ds, (runOpLoop host call policy start ps total lastErr w).2.log = w.log ++ ds ∧
      ds.head?.map Dispatch.provider = ps.head? ∧
      (runOpLoop host call policy start ps total lastErr w).2.pm.selectedProvider =
        w.pm.selectedProvider ∧
      ((runOpLoop host call policy start ps total lastErr w).1.err = none →
        ∃ ds₀ d data, ds = ds₀ ++ [d] ∧ d.result = .ok data ∧
          (runOpLoop host call policy start ps total lastErr w).2.pm.selector =
            w.pm.selector.recordAttempt d.provider.priority) := by
  induction ps generalizing total lastErr w with
  | nil => exact ⟨[],by simp [runOpLoop,tick],rfl,rfl,by simp [runOpLoop]⟩
  | cons p ps ih =>
    obtain ⟨ds,hds,hprov,hne,hok⟩ := attemptLoop_tries host call p policy.attempts 0 none w
      (fun _ => policy.attempts_pos)
    have hhead : ∀ ds', (ds ++ ds').head?.map Dispatch.provider = some p := by
      intro ds'
      cases ds with
      | nil => exact absurd rfl (hne rfl policy.attempts_pos)
      | cons d ds => simp [hprov d (by simp)]
    simp only [runOpLoop,attemptWithRetry]
    cases hr : (attemptLoop host call p policy.attempts 0 none w).1.2.2 with
    | none =>
      obtain ⟨ds₀,d,data,rfl,hd⟩ := hok hr
      refine ⟨ds₀ ++ [d],hds.log,by simpa using hhead [],hds.selectedProvider,?_⟩
      intro _
      refine ⟨ds₀,d,data,rfl,hd,?_⟩
      simp only [tick,recordAttempt]
      rw [hds.selector,hprov d (by simp)]
    | some err =>
      have hmark := hds.mark p.name
      obtain ⟨ds',hlog,-,hpin,hend⟩ := ih
        (total+(attemptLoop host call p policy.attempts 0 none w).1.2.1) (some err)
        ((attemptLoop host call p policy.attempts 0 none w).2.recordFailedProvider p.name)
      refine ⟨ds ++ ds',?_,hhead ds',hpin.trans hmark.selectedProvider,?_⟩
      · rw [hlog,hmark.log,List.append_assoc]
      · intro hnone
        obtain ⟨ds₀,d,data,rfl,hd,hsel⟩ := hend hnone
        refine ⟨ds ++ ds₀,d,data,by simp,hd,?_⟩
        rw [hsel,hmark.selector]

section
variable {host call} {P : GoError → Prop} (hop : ∀ i x e, call.op i x = .error e → P e)
  (hwait : ∀ k e, call.wait k = some e → P e)
include hop hwait

theorem attemptLoop_err (p : ProviderConfig ι) (n attempts : ℕ) (lastErr : Option GoError)
    (hlast : ∀ e, lastErr = some e → P e) (w : World ι ε δ) {e : GoError}
    (he : (attemptLoop host call p n attempts lastErr w).1.2.2 = some e) : P e := by
  induction n generalizing attempts lastErr w with
  | zero => exact hlast e he
  | succ n ih =>
    simp only [attemptLoop] at he
    generalize (if 0 < attempts then { w with waited := w.waited+1 } else w) = w₁ at he
    cases hcancel : (if 0 < attempts then call.wait w.waited else none) with
    | some err =>
      rw [hcancel] at he
      cases he
      split_ifs at hcancel
      exact hwait _ _ hcancel
    | none =>
      rw [hcancel] at he
      simp only [attemptOnce_fst] at he
      cases hres : call.op w₁.invoked p.provider with
      | ok data => simp [hres] at he
      | error err =>
        rw [hres] at he
        refine ih (attempts+1) (some err) ?_ _ he
        intro e' he'
        cases he'
        exact hop _ _ _ hres

theorem runOpLoop_err (policy : RetryPolicy) (start : ℤ) (ps : List (ProviderConfig ι))
    (total : ℕ) (lastErr : Option GoError) (hlast : ∀ e, lastErr = some e → P e)
    (hne : lastErr = none → ps ≠ []) (w : World ι ε δ) {e : GoError}
    (he : (runOpLoop host call policy start ps total lastErr w).1.err = some e) :
    ∃ inner, P inner ∧ e = .wrap "all providers failed, last error: " inner "" := by
  induction ps generalizing total lastErr w with
  | nil =>
    cases lastErr with
    | none => exact absurd rfl (hne rfl)
    | some err =>
      simp only [runOpLoop,allFailed,Option.some.injEq] at he
      exact ⟨err,hlast err rfl,he.symm⟩
  | cons p ps ih =>
    simp only [runOpLoop,attemptWithRetry] at he
    cases hr : (attemptLoop host call p policy.attempts 0 none w).1.2.2 with
    | none => simp [hr] at he
    | some err =>
      rw [hr] at he
      refine ih _ _ ?_ (by simp) _ he
      intro e' he'
      cases he'
      exact attemptLoop_err hop hwait p policy.attempts 0 none (by simp) w hr

end
end World
end ChainKit
