import Sutra.Call.Backoff

/-!
# No answer to a dead attempt

A poisoned delivery never counts twice: the commit that gives an attempt up withdraws its rows.

* `Apart`: a condition on relays and pollers; `no_answer_to_dead_attempt` holds under it.
* `dead_attempt_counts`: without it the other two paths each have a gap.
-/

namespace Sutra.Call

open List Option Function

def Apart (g : Graph) (a : World) : Event → Prop
  | .relay r => r.named ∈ a.waiting ∨
    ∀ n ∈ a.waiting, (a.retryBackoff n).isSome = true → g.subscribes n r.channel = false
  | .callOut n | .redrive n => ∀ p d, a.pollers p = some d → g.attachedTo d.boundary ≠ some n
  | _ => True

def ApartStep (g : Graph) (a : World) (e : Event) (b : World) : Prop := Step g a e b ∧ Apart g a e

/-! ## The wait that a relay resumes -/

section Relay

variable {g : Graph} {a : World} {r : Relay} {n : String}

theorem rebindRelayToWaiting_of_mem (h : r.named ∈ a.waiting) :
    g.rebindRelayToWaiting a.waiting r = r.named := by
  rw [Graph.rebindRelayToWaiting, if_pos (contains_iff_mem.mpr h)]

theorem subscribes_of_rebind (hnot : r.named ∉ a.waiting)
    (hmem : g.rebindRelayToWaiting a.waiting r ∈ a.waiting) :
    g.subscribes (g.rebindRelayToWaiting a.waiting r) r.channel := by
  have hcontains : ¬ a.waiting.contains r.named := fun h => hnot (contains_iff_mem.mp h)
  rw [Graph.rebindRelayToWaiting, if_neg hcontains] at hmem ⊢
  -- without a wait for the channel the relay stays with the node that it names
  split at hmem <;> rename_i hcand
  · rw [if_pos hcand]
    cases hfind : a.waiting.find? fun n => g.subscribes n r.channel with
    | none => rw [hfind] at hmem; exact absurd hmem hnot
    | some m => exact List.find?_some (p := fun n => g.subscribes n r.channel) hfind
  · rw [if_neg hcand]
    cases hfind : r.candidates.find? fun n => a.waiting.contains n && g.subscribes n r.channel with
    | none => rw [hfind] at hmem; exact absurd hmem hnot
    | some m =>
      have hm := List.find?_some
        (p := fun n => a.waiting.contains n && g.subscribes n r.channel) hfind
      exact (Bool.and_eq_true_iff.mp hm).2

/-- What a relay that gets through has passed. -/
theorem relayTarget_eq_some (h : a.relayTarget g r = some n) :
    a.retryBackoff r.named = none ∧ n = g.rebindRelayToWaiting a.waiting r ∧ n ∈ a.waiting := by
  rw [World.relayTarget] at h
  split at h
  · cases h
  · split at h <;> rename_i hmark
    · cases h
    · dsimp only at h
      split at h <;> rename_i hmem
      · cases h
        exact ⟨by simpa using hmark, rfl, contains_iff_mem.mp hmem⟩
      · cases h

theorem retryBackoff_relayTarget (h : a.relayTarget g r = some n) (hapart : Apart g a (.relay r)) :
    a.retryBackoff n = none := by
  obtain ⟨hnamed, rfl, hmem⟩ := relayTarget_eq_some h
  by_cases hwait : r.named ∈ a.waiting
  · rw [rebindRelayToWaiting_of_mem hwait]
    exact hnamed
  · have hall := hapart.resolve_left hwait
    refine not_isSome_iff_eq_none.mp fun hmark => ?_
    exact Bool.noConfusion ((hall _ hmem hmark).symm.trans (subscribes_of_rebind hwait hmem))

end Relay

/-! ## The invariant -/

/-- **What holds in every state.**  The rows left are those of attempts that were not given up, and
a timeout, armed or claimed, is that of the attempt under way. -/
structure Sound (g : Graph) (a : World) : Prop where
  begun : ∀ n k, a.abandoned n k = true → k ≤ a.attempt n
  live : ∀ n k, a.requests n k ≠ none → a.abandoned n k = false
  marked : ∀ n, g.isCall n = true → n ∈ a.waiting → a.retryBackoff n = none →
    a.abandoned n (a.attempt n) = false
  armed : ∀ b n k, g.attachedTo b = some n → a.timeouts b = some k → k = a.attempt n
  claimed : ∀ p d n, a.pollers p = some d → g.attachedTo d.boundary = some n →
    d.attempt = a.attempt n
  strayed : a.strayed = []
  mischarged : a.mischarged = []

namespace Sound

variable {g : Graph} {a : World} {n : String}

theorem initial : Sound g World.initial where
  begun := nofun
  live := fun _ _ h => absurd rfl h
  marked := nofun
  armed := nofun
  claimed := nofun
  strayed := rfl
  mischarged := rfl

variable (h : Sound g a)

include h

theorem timeouts {f : String → Option Nat}
    (hf : ∀ b n k, g.attachedTo b = some n → f b = some k → a.timeouts b = some k ∨
    k = a.attempt n) :
    Sound g { a with timeouts := f } := by
  refine { h with armed := fun b n k hhost hk => ?_ }
  exact (hf b n k hhost hk).elim (h.armed b n k hhost) id

theorem resolveTimeouts (n : String) : Sound g (a.resolveTimeouts g n) := by
  refine h.timeouts fun b m k _ hk => .inl ?_
  split at hk
  · cases hk
  · exact hk

theorem leaveWait (n : String) : Sound g (a.leaveWait g n) :=
  { h.resolveTimeouts n with
    marked := fun m hcall hm => h.marked m hcall (mem_filter.mp hm).1 }

/-- The marker of a node is removed, when the node has none or is about to be left. -/
theorem leaveCleared (n : String) : Sound g ((a.clearRetry n).leaveWait g n) := by
  refine { h.leaveWait n with marked := fun m hcall hm hmark => ?_ }
  have hmem := mem_filter.mp hm
  have hne : m ≠ n := by simpa using hmem.2
  change update a.retryBackoff n none m = none at hmark
  rw [update_of_ne hne] at hmark
  exact h.marked m hcall hmem.1 hmark

theorem satisfy (n : String) : Sound g (a.satisfy g n) := by
  rw [World.satisfy]
  split
  · exact h.leaveCleared n
  · exact h.leaveWait n

theorem failed : Sound g { a with suspended := false } := { h with }

/-- The rows of a node change, and no row comes back. -/
theorem requests {f : Nat → Option Bool} (hf : ∀ k, f k ≠ none → a.requests n k ≠ none) :
    Sound g { a with requests := update a.requests n f } := by
  refine { h with live := fun m k hk => ?_ }
  rcases update_cases (fun f : Nat → _ => f k ≠ none) hk with ⟨rfl, hk'⟩ | ⟨-, hk'⟩
  · exact h.live m k (hf k hk')
  · exact h.live m k hk'

theorem withdraw (n : String) : Sound g { a with requests := update a.requests n fun _ => none } :=
  h.requests fun _ hk => absurd rfl hk

theorem request_row (k : Nat) {x : Option Bool} (hx : x ≠ none → a.requests n k ≠ none) :
    Sound g { a with
      requests := update a.requests n (update (a.requests n) k x) } := by
  refine h.requests fun j hj => ?_
  rcases update_cases (· ≠ none) hj with ⟨rfl, hj'⟩ | ⟨-, hj'⟩
  · exact hx hj'
  · exact hj'

/-- A new attempt begins; only the node itself can come to wait or lose its marker by it. -/
theorem request {waiting : List String} {retryBackoff : String → Option String}
    (hfree : ∀ p d, a.pollers p = some d → g.attachedTo d.boundary ≠ some n)
    (hwait : ∀ m, m ≠ n → m ∈ waiting → m ∈ a.waiting)
    (hmark : ∀ m, m ≠ n → retryBackoff m = a.retryBackoff m) :
    Sound g { a.request g n with waiting := waiting, retryBackoff := retryBackoff } := by
  have hnew : a.abandoned n (a.attempt n + 1) = false := by
    refine eq_false_of_ne_true fun hab => ?_
    exact Nat.not_succ_le_self _ (h.begun n _ hab)
  refine { h with begun := ?_, live := ?_, marked := ?_, armed := ?_, claimed := ?_ }
  · intro m k hab
    have hle := h.begun m k hab
    refine update_of (k ≤ ·) (fun hm => ?_) fun _ => hle
    subst hm
    exact Nat.le_succ_of_le hle
  · intro m k hk
    rcases update_cases (fun f : Nat → _ => f k ≠ none) hk with ⟨rfl, hk'⟩ | ⟨-, hk'⟩
    · rcases update_cases (· ≠ none) hk' with ⟨rfl, -⟩ | ⟨-, hk'⟩
      · exact hnew
      · exact h.live m k hk'
    · exact h.live m k hk'
  · intro m hcall hm hmarkm
    refine update_of (a.abandoned m · = false) (fun hmn => ?_) fun hmn => ?_
    · subst hmn
      exact hnew
    · exact h.marked m hcall (hwait m hmn hm) ((hmark m hmn).symm.trans hmarkm)
  · intro b m k hhost hk
    change (if g.attachedTo b = some n then some (a.attempt n + 1) else a.timeouts b) = some k at hk
    refine update_of (k = ·) (fun hm => ?_) fun hm => ?_
    · subst hm
      rw [if_pos hhost] at hk
      exact (some.inj hk).symm
    · rw [if_neg fun hn => hm (some.inj (hhost.symm.trans hn))] at hk
      exact h.armed b m k hhost hk
  · intro p d m hp hhost
    refine update_of (d.attempt = ·) (fun hmn => ?_) fun _ => h.claimed p d m hp hhost
    exact absurd (hmn ▸ hhost) (hfree p d hp)

theorem backOff (n code : String) : Sound g (a.backOff g n code) := by
  have habandoned : ∀ m k, (a.backOff g n code).abandoned m k →
      m = n ∧ k = a.attempt n ∨ a.abandoned m k := by
    intro m k hab
    rcases update_cases (fun f : Nat → _ => f k = true) hab with ⟨rfl, hab'⟩ | ⟨-, hab'⟩
    · exact (update_eq_cases hab').imp (fun hk => ⟨rfl, hk.1⟩) And.right
    · exact .inr hab'
  refine { h.resolveTimeouts n with begun := ?_, live := ?_, marked := ?_ }
  · intro m k hab
    rcases habandoned m k hab with ⟨rfl, rfl⟩ | hold
    · exact Nat.le_refl _
    · exact h.begun m k hold
  · intro m k hk
    change update a.requests n (fun _ => none) m k ≠ none at hk
    refine eq_false_of_ne_true fun hab => ?_
    rcases habandoned m k hab with ⟨rfl, rfl⟩ | hold
    · rw [update_self] at hk
      exact hk rfl
    · exact Bool.noConfusion (((h.withdraw n).live m k hk).symm.trans hold)
  · intro m hcall hm hmark
    rcases update_eq_cases hmark with ⟨-, ⟨⟩⟩ | ⟨hmn, hmark⟩
    refine eq_false_of_ne_true fun hab => ?_
    rcases habandoned m _ hab with ⟨rfl, -⟩ | hold
    · exact hmn rfl
    · exact Bool.noConfusion ((h.marked m hcall hm hmark).symm.trans hold)

/-- A failure counts for an attempt that was not given up. -/
theorem charge {k : Nat} (hk : a.abandoned n k = false) : Sound g (a.charge n k) := by
  refine { h with mischarged := ?_ }
  change a.mischarged ++ (if a.abandoned n k then [n] else []) = []
  rw [hk, h.mischarged]
  rfl

theorem raiseChannelCallFailure (n code : String) :
    Sound g (a.raiseChannelCallFailure g n code) := by
  rw [World.raiseChannelCallFailure]
  split
  · exact h.leaveCleared n
  · exact h.failed

theorem parkOrFailChannelCallRetry (n code : String) :
    Sound g (a.parkOrFailChannelCallRetry g n code) := by
  rw [World.parkOrFailChannelCallRetry]
  split
  · exact h.backOff n code
  · exact h.raiseChannelCallFailure n code

theorem routeTimerBoundary (b n : String) : Sound g (a.routeTimerBoundary g b n) := by
  rw [World.routeTimerBoundary]
  split
  · exact h.leaveWait n
  · exact h.failed

theorem pollers (p : Nat) {x : Option DueTimeout}
    (hx : ∀ d, x = some d → a.timeouts d.boundary = some d.attempt) :
    Sound g { a with pollers := update a.pollers p x } := by
  refine { h with claimed := fun q d n hq hhost => ?_ }
  rcases update_eq_cases hq with ⟨-, hq⟩ | ⟨-, hq⟩
  · exact h.armed _ n _ hhost (hx d hq)
  · exact h.claimed q d n hq hhost

theorem release (p : Nat) : Sound g (a.release p) := h.pollers p nofun

theorem abandoned_of_claimed {p : Nat} {b : String} {k : Nat}
    (hp : a.pollers p = some ⟨b, k⟩) (hhost : g.attachedTo b = some n)
    (hcall : g.isCall n) (hawaits : a.awaits n) : a.abandoned n k = false := by
  rw [World.awaits, Bool.and_eq_true, Bool.and_eq_true, isNone_iff_eq_none] at hawaits
  obtain ⟨⟨-, hwait⟩, hmark⟩ := hawaits
  obtain rfl : k = a.attempt n := h.claimed p _ n hp hhost
  exact h.marked n hcall (contains_iff_mem.mp hwait) hmark

/-- **Every step keeps the invariant.** -/
theorem step {e : Event} {b : World} (hab : ApartStep g a e b) : Sound g b := by
  obtain ⟨hab, hapart⟩ := hab
  cases hab with
  | callOut n _ hnew _ =>
    refine h.request hapart (fun m hm hmem => ?_) fun _ _ => rfl
    exact (mem_append.mp hmem).resolve_right fun hn => hm (mem_singleton.mp hn)
  | park n hnot _ _ =>
    refine { h with marked := fun m hcall hm => h.marked m hcall ?_ }
    refine (mem_append.mp hm).resolve_right fun hn => ?_
    obtain rfl := mem_singleton.mp hn
    exact Bool.noConfusion (hnot.symm.trans hcall)
  | leave n _ => exact h.leaveWait n
  | relay r n htarget =>
    refine { h.satisfy n with strayed := ?_ }
    rw [h.strayed, retryBackoff_relayTarget htarget hapart]
    rfl
  | refused r _ => exact h
  | redrive n _ _ _ =>
    exact h.request hapart (fun _ _ hmem => hmem) fun m hm => update_of_ne hm _ _
  | withdraw n _ => exact h.withdraw n
  | deliver n k => exact h.request_row k fun hx => absurd rfl hx
  | poison n k =>
    refine { h.request_row k fun hx hnone => ?_ with }
    exact hx (by rw [hnone]; rfl)
  | wake n k _ _ hevidence =>
    have hk : a.abandoned n k = false := h.live n k (by rw [hevidence]; nofun)
    have hwoken : Sound g { a with wakes := a.wakes.erase n } := { h with }
    exact (hwoken.charge hk).parkOrFailChannelCallRetry n _
  | ignore n _ _ => exact { h with }
  | pollDue p b k _ hdue => exact h.pollers p fun d hd => some.inj hd ▸ hdue
  | fire p b n k hp hhost hawaits hcall _ _ _ =>
    have hk : a.abandoned n k = false := h.abandoned_of_claimed hp hhost hcall hawaits
    exact ((h.release p).charge hk).parkOrFailChannelCallRetry n _
  | fireRouted p b n k _ _ _ _ _ => exact (h.release p).routeTimerBoundary b n
  | fireAside p b n k cycle _ _ _ _ =>
    refine (h.release p).timeouts fun x m j hhost hj => ?_
    split at hj <;> rename_i hx
    · obtain rfl : m = n := some.inj (hhost.symm.trans hx)
      split at hj
      · exact .inr (some.inj hj).symm
      · cases hj
    · exact .inl hj
  | stale p b n k _ _ _ =>
    refine (h.release p).timeouts fun x m j _ hj => .inl ?_
    rcases update_eq_cases hj with ⟨-, ⟨⟩⟩ | ⟨-, hj⟩
    exact hj
  | pollStop p => exact h.release p

end Sound

/-- **No answer to a dead attempt**: when relays and pollers keep apart from the calls in their
backoff window, no relay ever completes such a call, and no timeout and no poisoned delivery of an
attempt that was given up counts against the budget. -/
theorem no_answer_to_dead_attempt (g : Graph) {es : List Event} {a : World}
    (hrun : Run (ApartStep g) World.initial es a) : a.strayed = [] ∧ a.mischarged = [] := by
  have h : Sound g a := hrun.invariant (fun _ _ _ _ hab h => h.step hab) .initial
  exact ⟨h.strayed, h.mischarged⟩

def sharedChannel : Graph where
  subscribes := fun n c => (n == "ask" || n == "listen") && c == "answers"
  isCall := fun n => n == "ask"
  attachedTo := fun b => if b = "ask#timeout" then some "ask" else none
  interrupting := fun _ => true
  routed := fun _ => false
  maxAttempts := fun n => if n = "ask" then some 3 else none
  nonRetryable := fun _ _ => false
  retryParkable := fun _ => true
  catches := fun _ _ => false

/-- The answer to the first attempt is refused in the backoff window, and the answer to the second
one taken. -/
theorem second_attempt_answered : ∃ es a, Run (ApartStep sharedChannel) World.initial es a ∧
    a.attempt "ask" = 2 ∧ a.waiting = [] ∧ a.strayed = [] ∧ a.mischarged = [] := by
  have hrun : Run (ApartStep sharedChannel) .initial _ _ :=
    .cons ⟨.callOut "ask" rfl nofun rfl, nofun⟩ <|
    .cons ⟨.poison "ask" 1, trivial⟩ <|
    .cons ⟨.wake "ask" 1 (.head _) rfl rfl, trivial⟩ <|
    .cons ⟨.refused ⟨"ask", ["ask", "listen"], "answers"⟩ rfl, .inl (.head _)⟩ <|
    .cons ⟨.redrive "ask" rfl (.head _) rfl, nofun⟩ <|
    .cons ⟨.relay ⟨"ask", ["ask", "listen"], "answers"⟩ "ask" rfl, .inl (.head _)⟩ <| .nil _
  exact ⟨_, _, hrun, rfl, rfl, no_answer_to_dead_attempt sharedChannel hrun⟩

/-- An answer that names the other wait completes a call in its backoff window, and the timeout of
the first attempt counts against the second. -/
theorem dead_attempt_counts :
    (∃ es a, Run (Step sharedChannel) World.initial es a ∧ a.strayed = ["ask"]) ∧
    ∃ es a, Run (Step sharedChannel) World.initial es a ∧ a.mischarged = ["ask"] ∧
      a.attempt "ask" = 2 ∧ a.retryAttempts "ask" = 2 := by
  have hrelay : Run (Step sharedChannel) .initial _ _ :=
    .cons (.callOut "ask" rfl nofun rfl) <|
    .cons (.poison "ask" 1) <|
    .cons (.wake "ask" 1 (.head _) rfl rfl) <|
    .cons (.relay ⟨"listen", ["listen", "ask"], "answers"⟩ "ask" rfl) <| .nil _
  have hfire : Run (Step sharedChannel) .initial _ _ :=
    .cons (.callOut "ask" rfl nofun rfl) <|
    .cons (.pollDue 0 "ask#timeout" 1 rfl rfl) <|
    .cons (.poison "ask" 1) <|
    .cons (.wake "ask" 1 (.head _) rfl rfl) <|
    .cons (.redrive "ask" rfl (.head _) rfl) <|
    .cons (.fire 0 "ask#timeout" "ask" 1 rfl rfl rfl rfl rfl rfl rfl) <| .nil _
  exact ⟨⟨_, _, hrelay, rfl⟩, _, _, hfire, rfl, rfl, rfl⟩

end Sutra.Call
