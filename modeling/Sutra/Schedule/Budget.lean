import Sutra.Schedule.Starts

/-!
# What a timer start mints

The upsert that arms a row leaves one that is `SCHEDULED` alone, and starts a `RESOLVED` one from
scratch.

* `spent_start_mints_again`: a timer that has spent its budget is `RESOLVED` too, so the next boot,
  or a flip of any other deployment, starts it again.
* `mints_what_it_declares`: under `Unspent`, while the deployment stays active.
-/

namespace Sutra.Schedule

open List Function Option Sutra.Schedule.World

/-- While the deployment is active nothing arms the row of the key when it is resolved, and when the
deployment becomes active the poller does not have the row in hand. -/
def Unspent (key : Key) (a : World) : Event → Prop
  | .reconcile _ _ =>
    if a.active then ∀ r, a.rows key = some r → r.status = .scheduled else a.claims key = none
  | _ => True

def UnspentStep {texts : TimerTexts} (plan : DeploymentPlan texts) (key : Key) (a : World)
    (e : Event) (b : World) : Prop :=
  Step plan a e b ∧ Unspent key a e

/-- The deployment is not active after this. -/
def Event.deactivates : Event → Bool
  | .retire _ | .bootWithout => true
  | _ => false

/-! ## The invariant -/

section

variable {texts : TimerTexts} {plan : DeploymentPlan texts} {key : Key} {a : World}

/-- The fire of the row has happened, and the row was not moved on. -/
def World.underway (a : World) (key : Key) : Nat :=
  match a.claims key with
  | some ⟨_, _, .fired⟩ => 1
  | _ => 0

def Row.Within (r : Row) (n : Nat) : Prop :=
  r.status = .scheduled → ∃ i, r.remainingFires = some i ∧ max 1 i.toNat ≤ n

/-- **What holds of a schedule in every state.** -/
structure Sound (plan : DeploymentPlan texts) (key : Key) (a : World) : Prop where
  declared : ∀ r, a.rows key = some r → Declared plan key r.timer
  held : ∀ c, a.claims key = some c → c.row.status = .scheduled ∧
    ∃ r, a.rows key = some r ∧ (r = c.row ∨ r.status = .resolved ∧ a.active = false)
  unused : a.rows key = none → a.minted key = 0
  minted : ∀ t n, plan.timer key = some t → t.totalFires = some n → a.minted key ≤ n
  budget : ∀ t n, plan.timer key = some t → t.totalFires = some n →
    ∀ r, a.rows key = some r → r.Within (n + a.underway key - a.minted key)

variable {n : Nat} {r : Row} {b : World}

theorem Row.Within.mono {m : Nat} (h : r.Within n) (hnm : n ≤ m) : r.Within m := by
  intro hs
  obtain ⟨i, hi, hle⟩ := h hs
  exact ⟨i, hi, hle.trans hnm⟩

theorem Row.within_of_resolved (n : Nat) (h : r.status = .resolved) : r.Within n := by
  intro hs
  rw [h] at hs
  cases hs

/-- A row that was moved on has one fire less. -/
theorem Row.Within.advanceSchedule (h : r.Within (n + 1)) (texts : TimerTexts)
    (now : Int) (hs : r.status = .scheduled) : (Row.advanceSchedule texts r now r).Within n := by
  obtain ⟨i, hi, hle⟩ := h hs
  rcases r.advanceSchedule_scheduled texts now hs with heq | ⟨due, rest, -, hspent, heq⟩
  · rw [heq]
    exact Row.within_of_resolved n rfl
  · rw [heq]
    rw [hi] at hspent
    cases hspent with
    | @bounded _ m hpos hlt =>
      refine fun _ => ⟨asI32 m, rfl, max_le ?_ ?_⟩
      · omega
      · have := toNat_asI32_le m
        omega

theorem within_of_timerSchedule {now : Int} {t : TimerDefinition}
    (h : plan.timerSchedule now key = some r) (ht : plan.timer key = some t)
    (hn : t.totalFires = some n) : r.Within n := by
  obtain ⟨⟨htimer, -⟩, hremaining⟩ := Declared.of_timerSchedule h
  obtain rfl : t = r.timer := some.inj (ht.symm.trans htimer)
  obtain ⟨u, hu⟩ := plan.valid key _ ht
  rw [hn] at hremaining
  refine fun _ => ⟨asI32 n, hremaining, max_le ?_ (toNat_asI32_le n)⟩
  exact TimerDefinition.totalFires_pos hu hn

theorem World.underway_of_none (h : a.claims key = none) : a.underway key = 0 := by
  rw [World.underway, h]

theorem World.underway_of_claimed {c : Claim} (h : a.claims key = some c)
    (hphase : c.phase ≠ .fired) : a.underway key = 0 := by
  rw [World.underway, h]
  split
  · rename_i heq
    cases heq
    exact absurd rfl hphase
  · rfl

theorem underway_of_fired {c : Claim} (h : a.claims key = some c) (hphase : c.phase = .fired) :
    a.underway key = 1 := by
  obtain ⟨row, now, phase⟩ := c
  subst hphase
  rw [World.underway, h]

theorem minted_mint (minted : Bool) : (a.mint key minted).minted key =
    if a.active && minted then a.minted key + 1 else a.minted key := by
  change (if a.active && minted then _ else a.minted) key = _
  split
  · exact update_self ..
  · rfl

theorem minted_mint_of_ne {key' : Key} (minted : Bool) (h : key ≠ key') :
    (a.mint key' minted).minted key = a.minted key := by
  change (if a.active && minted then _ else a.minted) key = _
  split
  · exact update_of_ne h ..
  · rfl

namespace Sound

theorem initial : Sound plan key World.initial where
  declared := fun _ hr => nomatch hr
  held := fun _ hc => nomatch hc
  unused := fun _ => rfl
  minted := fun _ _ _ _ => Nat.zero_le _
  budget := fun _ _ _ _ _ hr => nomatch hr

variable {c : Claim} (h : Sound plan key a)

include h

theorem row_of_active (hactive : a.active)
    (hc : a.claims key = some c) : a.rows key = some c.row := by
  obtain ⟨-, r, hr, rfl | ⟨-, hnot⟩⟩ := h.held c hc
  · exact hr
  · rw [hactive] at hnot
    cases hnot

theorem deactivate : Sound plan key { a with active := false } := by
  refine { h with held := fun c hc => ?_ }
  obtain ⟨hs, r, hr, hor⟩ := h.held c hc
  exact ⟨hs, r, hr, hor.imp_right fun hres => ⟨hres.1, rfl⟩⟩

theorem resolveDeployment (hactive : a.active = false) : Sound plan key a.resolveDeployment where
  declared := by
    intro r hr
    obtain ⟨r', hr', rfl⟩ := map_eq_some_iff.mp hr
    exact h.declared r' hr'
  held := by
    intro c hc
    obtain ⟨hs, r, hr, -⟩ := h.held c hc
    exact ⟨hs, r.resolve, congrArg (Option.map Row.resolve) hr, .inr ⟨rfl, hactive⟩⟩
  unused := fun hnone => h.unused (map_eq_none_iff.mp hnone)
  minted := h.minted
  budget := by
    intro t n _ _ r hr
    obtain ⟨r', -, rfl⟩ := map_eq_some_iff.mp hr
    exact Row.within_of_resolved _ rfl

theorem activate (hidle : a.active = false → a.claims key = none) : Sound plan key a.activate := by
  cases hactive : a.active with
  | true =>
    have heq : a.activate = a := by
      rw [World.activate, if_pos hactive, ← hactive]
    rwa [heq]
  | false =>
    have hnone := hidle hactive
    have hminted : a.activate.minted = fun _ => 0 := by
      rw [World.activate, hactive]
      rfl
    refine { declared := h.declared, held := ?_, unused := ?_, minted := ?_, budget := ?_ }
    · intro c hc
      exact absurd (hnone.symm.trans hc) nofun
    · intro _
      rw [hminted]
    · intro t n _ _
      rw [hminted]
      exact Nat.zero_le n
    · intro t n ht hn r hr
      refine (h.budget t n ht hn r hr).mono ?_
      rw [hminted]
      exact Nat.sub_le _ _

theorem rows_arm (now : Int) : (a.arm plan now).rows key = a.rows key ∨
      ∃ r, plan.timerSchedule now key = some r ∧ (a.arm plan now).rows key = some r ∧
        ∀ old, a.rows key = some old → old.status = .resolved := by
  cases hrow : a.rows key with
  | none =>
    cases hsched : plan.timerSchedule now key with
    | none =>
      left
      rw [arm]
      simp only [hsched, hrow]
      rfl
    | some arming =>
      refine .inr ⟨arming, rfl, ?_, fun _ h => by cases h⟩
      rw [arm]
      simp only [hsched, hrow]
      rfl
  | some old =>
    obtain ⟨due, hsched⟩ := (h.declared old hrow).timerSchedule now
    cases hs : old.status with
    | scheduled =>
      left
      rw [arm]
      simp only [hsched, hrow]
      exact congrArg some (Row.arm_scheduled hs rfl)
    | resolved =>
      refine .inr ⟨_, hsched, ?_, fun r hr => some.inj hr ▸ hs⟩
      rw [arm]
      simp only [hsched, hrow]
      rw [Row.arm_resolved hs]

theorem arm (now : Int) (hfresh : (∀ r, a.rows key = some r → r.status = .scheduled) ∨
      a.claims key = none ∧ a.minted key = 0) : Sound plan key (a.arm plan now) := by
  rcases h.rows_arm now with hsame | ⟨r, hsched, hrow, hold⟩
  · refine { h with declared := ?_, held := ?_, unused := ?_, budget := ?_ }
    · rw [hsame]
      exact h.declared
    · rw [hsame]
      exact h.held
    · rw [hsame]
      exact h.unused
    · rw [hsame]
      exact h.budget
  · have hnew : a.claims key = none ∧ a.minted key = 0 := by
      refine hfresh.elim (fun hall => ?_) id
      -- every row was scheduled, so there was none
      have hnone : a.rows key = none := by
        refine eq_none_iff_forall_ne_some.mpr fun old ho => ?_
        exact nomatch (hall old ho).symm.trans (hold old ho)
      refine ⟨eq_none_iff_forall_ne_some.mpr fun c hc => ?_, h.unused hnone⟩
      obtain ⟨-, r', hr', -⟩ := h.held c hc
      exact nomatch hnone.symm.trans hr'
    refine { h with declared := ?_, held := ?_, unused := ?_, budget := ?_ }
    · rw [hrow]
      rintro _ ⟨⟩
      exact (Declared.of_timerSchedule hsched).1
    · intro c hc
      exact nomatch hnew.1.symm.trans hc
    · intro hnone
      exact nomatch hrow.symm.trans hnone
    · rw [hrow]
      rintro t n ht hn _ ⟨⟩
      refine (within_of_timerSchedule hsched ht hn).mono ?_
      change n ≤ n + _ - a.minted key
      rw [hnew.2]
      exact Nat.le_add_right _ _

theorem claimDue (now : Int) {keys : List Key} (hidle : ∀ key, a.claims key = none)
    (hdue : ∀ key ∈ keys, ∃ r, a.rows key = some r ∧ r.status = .scheduled ∧ r.nextDueAt ≤ now) :
    Sound plan key (a.claimDue now keys) := by
  have hclaims : ∀ c, (a.claimDue now keys).claims key = some c →
      key ∈ keys ∧ ∃ r, a.rows key = some r ∧ c = ⟨r, now, .claimed⟩ := by
    intro c hc
    change (if key ∈ keys then (a.rows key).map _ else none) = some c at hc
    split at hc <;> rename_i hmem
    · obtain ⟨r, hr, rfl⟩ := map_eq_some_iff.mp hc
      exact ⟨hmem, r, hr, rfl⟩
    · cases hc
  have hunderway : (a.claimDue now keys).underway key = a.underway key := by
    rw [World.underway_of_none (hidle key)]
    cases hc : (a.claimDue now keys).claims key with
    | none => exact World.underway_of_none hc
    | some c =>
      obtain ⟨-, r, -, rfl⟩ := hclaims c hc
      exact World.underway_of_claimed hc nofun
  refine { h with held := ?_, budget := ?_ }
  · intro c hc
    obtain ⟨hmem, r, hr, rfl⟩ := hclaims c hc
    obtain ⟨r', hr', hs, -⟩ := hdue key hmem
    obtain rfl : r = r' := some.inj (hr.symm.trans hr')
    exact ⟨hs, r, hr, .inl rfl⟩
  · rw [hunderway]
    exact h.budget

theorem other {b : World} (hactive : b.active = a.active)
    (hrows : b.rows key = a.rows key) (hclaims : b.claims key = a.claims key)
    (hminted : b.minted key = a.minted key) : Sound plan key b := by
  have hunderway : b.underway key = a.underway key := by
    rw [World.underway, World.underway, hclaims]
  refine ⟨?_, ?_, ?_, ?_, ?_⟩
  · rw [hrows]
    exact h.declared
  · rw [hclaims, hrows, hactive]
    exact h.held
  · rw [hrows, hminted]
    exact h.unused
  · rw [hminted]
    exact h.minted
  · rw [hrows, hunderway, hminted]
    exact h.budget

theorem fire (minted : Bool) (hc : a.claims key = some c) (hphase : c.phase = .claimed) :
    Sound plan key ((a.mint key minted).setClaim key (some { c with phase := .fired })) := by
  obtain ⟨hs, hheld⟩ := h.held c hc
  have hnew : ((a.mint key minted).setClaim key (some { c with phase := .fired })).claims key =
      some { c with phase := .fired } := update_self ..
  have hbefore : a.underway key = 0 := World.underway_of_claimed hc (by rw [hphase]; nofun)
  have hafter := underway_of_fired hnew rfl
  refine { declared := h.declared, held := ?_, unused := ?_, minted := ?_, budget := ?_ }
  · intro c' hc'
    rw [hnew] at hc'
    cases hc'
    exact ⟨hs, hheld⟩
  · intro hnone
    obtain ⟨r, hr, -⟩ := hheld
    exact nomatch hr.symm.trans hnone
  · intro t n ht hn
    change (a.mint key minted).minted key ≤ n
    rw [minted_mint]
    split <;> rename_i hmint
    · -- the row in hand had a fire left
      have hrow := h.row_of_active (Bool.and_eq_true_iff.mp hmint).1 hc
      obtain ⟨i, -, hle⟩ := h.budget t n ht hn c.row hrow hs
      omega
    · exact h.minted t n ht hn
  · intro t n ht hn r hr
    refine (h.budget t n ht hn r hr).mono ?_
    rw [hafter, hbefore]
    change n + 0 - a.minted key ≤ n + 1 - (a.mint key minted).minted key
    rw [minted_mint]
    split <;> omega

theorem fireStale (hc : a.claims key = some c) (hphase : c.phase = .claimed) :
    Sound plan key (a.setClaim key (some { c with phase := .stale })) := by
  have hnew : (a.setClaim key (some { c with phase := .stale })).claims key =
      some { c with phase := .stale } := update_self ..
  have hbefore : a.underway key = 0 := World.underway_of_claimed hc (by rw [hphase]; nofun)
  refine { h with held := ?_, budget := ?_ }
  · rw [hnew]
    rintro _ ⟨⟩
    exact h.held c hc
  · rw [World.underway_of_claimed hnew nofun, ← hbefore]
    exact h.budget

theorem done {f : Row → Row} (htimer : ∀ r, (f r).timer = r.timer)
    (hbudget : ∀ r n, a.rows key = some r → r.Within (n + a.underway key) → (f r).Within n) :
    Sound plan key ((a.mapRow key f).setClaim key none) := by
  have hnone : ((a.mapRow key f).setClaim key none).claims key = none := update_self ..
  have hrow : ((a.mapRow key f).setClaim key none).rows key = (a.rows key).map f := update_self ..
  refine { declared := ?_, held := ?_, unused := ?_, minted := h.minted, budget := ?_ }
  · intro r hr
    rw [hrow] at hr
    obtain ⟨old, ho, rfl⟩ := map_eq_some_iff.mp hr
    rw [htimer]
    exact h.declared old ho
  · intro c' hc'
    exact nomatch hnone.symm.trans hc'
  · intro hr
    rw [hrow] at hr
    exact h.unused (map_eq_none_iff.mp hr)
  · intro t n ht hn r hr
    rw [hrow] at hr
    obtain ⟨old, ho, rfl⟩ := map_eq_some_iff.mp hr
    rw [World.underway_of_none hnone]
    have hle : a.minted key ≤ n := h.minted t n ht hn
    refine hbudget old _ ho ((h.budget t n ht hn old ho).mono ?_)
    change n + a.underway key - a.minted key ≤ n + 0 - a.minted key + a.underway key
    omega

theorem advance (hc : a.claims key = some c) (hphase : c.phase = .fired) : Sound plan key
      ((a.mapRow key (Row.advanceSchedule texts c.row c.now)).setClaim key none) := by
  refine h.done (fun r => Row.advanceSchedule_timer) fun r n hr hwithin => ?_
  rw [underway_of_fired hc hphase] at hwithin
  obtain ⟨hs, r', hr', hor⟩ := h.held c hc
  obtain rfl : r = r' := some.inj (hr.symm.trans hr')
  rcases hor with rfl | ⟨hres, -⟩
  · exact hwithin.advanceSchedule texts c.now hs
  · exact Row.within_of_resolved n (Row.advanceSchedule_resolved hres)

theorem crash (hnone : ∀ key c, a.claims key = some c → c.phase = .claimed) :
    Sound plan key { a with claims := fun _ => none } := by
  refine { h with held := fun _ hc => (nomatch hc), budget := ?_ }
  have hbefore : a.underway key = 0 := by
    cases hc : a.claims key with
    | none => exact World.underway_of_none hc
    | some c => exact World.underway_of_claimed hc (by rw [hnone key c hc]; nofun)
  change ∀ t n, _ → _ → ∀ r, a.rows key = some r → r.Within (n + 0 - a.minted key)
  rw [← hbefore]
  exact h.budget

/-- **Every step keeps the invariant.** -/
theorem step {e : Event} {b : World} (hab : UnspentStep plan key a e b) : Sound plan key b := by
  obtain ⟨hab, hunspent⟩ := hab
  cases hab with
  | reconcile now armed =>
    change if a.active then _ else _ at hunspent
    have hactive : Sound plan key a.activate := by
      refine h.activate fun hnot => ?_
      rwa [hnot] at hunspent
    split
    · refine hactive.arm now ?_
      split at hunspent <;> rename_i ha
      · exact .inl hunspent
      · refine .inr ⟨hunspent, ?_⟩
        change (if a.active then a.minted else fun _ => 0) key = 0
        rw [if_neg ha]
    · exact hactive
  | retire resolved =>
    split
    · exact h.deactivate.resolveDeployment rfl
    · exact h.deactivate
  | bootWithout => exact h.deactivate
  | claim now keys hidle hdue => exact h.claimDue now hidle hdue
  | fire key' minted c hc hphase =>
    by_cases hkey : key = key'
    · subst hkey
      exact h.fire minted hc hphase
    · exact h.other rfl rfl (update_of_ne hkey ..) (minted_mint_of_ne minted hkey)
  | fireStale key' c hc hphase =>
    by_cases hkey : key = key'
    · subst hkey
      exact h.fireStale hc hphase
    · exact h.other rfl rfl (update_of_ne hkey ..) rfl
  | advance key' c hc hphase =>
    by_cases hkey : key = key'
    · subst hkey
      exact h.advance hc hphase
    · exact h.other rfl (update_of_ne hkey ..) (update_of_ne hkey ..) rfl
  | resolve key' c hc hphase =>
    by_cases hkey : key = key'
    · subst hkey
      exact h.done (fun _ => rfl) fun _ n _ _ => Row.within_of_resolved n rfl
    · exact h.other rfl (update_of_ne hkey ..) (update_of_ne hkey ..) rfl
  | crash hnone => exact h.crash hnone

end Sound

/-! ## The due instant -/

def Later (key : Key) (a b : World) : Prop :=
  ∀ r, a.rows key = some r → ∃ r', b.rows key = some r' ∧ r.nextDueAt ≤ r'.nextDueAt

theorem Later.of_eq (h : b.rows key = a.rows key) : Later key a b :=
  fun r hr => ⟨r, h.trans hr, le_refl _⟩

theorem Later.trans {c : World} (h : Later key a b) (h' : Later key b c) : Later key a c := by
  intro r hr
  obtain ⟨r', hr', hle⟩ := h r hr
  obtain ⟨r'', hr'', hle'⟩ := h' r' hr'
  exact ⟨r'', hr'', hle.trans hle'⟩

theorem Later.mapRow {key' : Key} {f : Row → Row} (c : Option Claim)
    (hf : key = key' → ∀ r, a.rows key = some r → r.nextDueAt ≤ (f r).nextDueAt) :
    Later key a ((a.mapRow key' f).setClaim key' c) := by
  intro r hr
  change ∃ r', Function.update a.rows key' ((a.rows key').map f) key = some r' ∧ _
  by_cases hkey : key = key'
  · rw [hkey, update_self, ← hkey, hr]
    exact ⟨f r, rfl, hf hkey r hr⟩
  · rw [update_of_ne hkey]
    exact ⟨r, hr, le_refl _⟩

/-- While the deployment is active the due instant does not move backwards. -/
theorem Sound.later (h : Sound plan key a) (hactive : a.active) {e : Event}
    (hstay : e.deactivates = false) (hab : UnspentStep plan key a e b) : Later key a b := by
  obtain ⟨hab, hunspent⟩ := hab
  cases hab with
  | reconcile now armed =>
    change if a.active then _ else _ at hunspent
    rw [if_pos hactive] at hunspent
    have hactivate : a.activate = a := by rw [World.activate, if_pos hactive, ← hactive]
    rw [hactivate]
    split
    · rcases h.rows_arm now with hsame | ⟨r, -, -, hold⟩
      · exact .of_eq hsame
      · intro old ho
        exact nomatch (hunspent old ho).symm.trans (hold old ho)
    · exact .of_eq rfl
  | retire _ => cases hstay
  | bootWithout => cases hstay
  | claim | fire | fireStale | crash => exact .of_eq rfl
  | advance key' c hc hphase =>
    refine .mapRow none ?_
    rintro rfl r hr
    obtain rfl : r = c.row := some.inj (hr.symm.trans (h.row_of_active hactive hc))
    exact Row.nextDueAt_le_advanceSchedule (h.held c hc).1
  | resolve _ _ _ _ => exact .mapRow none fun _ _ _ => le_refl _

theorem active_of_step {e : Event} (hactive : a.active)
    (hstay : e.deactivates = false) (hab : Step plan a e b) : b.active := by
  cases hab with
  | reconcile now armed => split <;> rfl
  | retire _ => cases hstay
  | bootWithout => cases hstay
  | _ => exact hactive

end

/-- **A timer start mints what it declares**: while the deployment stays active, a duration or a
date mints at most one instance, a cycle `R<n>` at most `n`, and the due instant never moves
backwards. -/
theorem mints_what_it_declares {texts : TimerTexts} (plan : DeploymentPlan texts) (key : Key)
    {es : List Event} {a : World} (hrun : Run (UnspentStep plan key) initial es a) :
    (∀ d, plan.timer key = some (.duration d) → a.minted key ≤ 1) ∧
    (∀ d, plan.timer key = some (.date d) → a.minted key ≤ 1) ∧
    (∀ c n, plan.timer key = some (.cycle c) → c.repeats = some n → a.minted key ≤ n) ∧
    ∀ es' b, a.active = true → (∀ e ∈ es', e.deactivates = false) →
      Run (UnspentStep plan key) a es' b → Later key a b := by
  have h : Sound plan key a := hrun.invariant (fun _ _ _ _ hab h => h.step hab) .initial
  refine ⟨fun d hd => h.minted _ 1 hd rfl, fun d hd => h.minted _ 1 hd rfl,
    fun c n hc hn => h.minted _ n hc hn, fun es' b hactive hstay hmore => ?_⟩
  have hinv : Sound plan key b ∧ b.active ∧ Later key a b := by
    refine hmore.invariant (I := fun x => Sound plan key x ∧ x.active ∧ Later key a x)
      (fun e he x y hxy hx => ?_) ⟨h, hactive, .of_eq rfl⟩
    obtain ⟨hsound, hx, hlater⟩ := hx
    exact ⟨hsound.step hxy, active_of_step hx (hstay e he) hxy.1,
      hlater.trans (hsound.later hx (hstay e he) hxy)⟩
  exact hinv.2.2

def hourTexts : TimerTexts where
  parseTimerDuration := fun s => if s = "PT1H" then some 60 else none
  parseTimerInstant := fun _ => none

def singleStart (t : TimerDefinition) (h : ∃ u, t.fromPersisted hourTexts = some u) :
    DeploymentPlan hourTexts where
  timer := fun key => if key = ("report", "start") then some t else none
  valid := by
    intro key t' ht
    split at ht
    · exact some.inj ht ▸ h
    · cases ht

/-- A cycle fires while another deployment is activated. -/
theorem cycle_fires_across_flip :
    ∃ es a, Run (UnspentStep (singleStart (.cycle ⟨some 2, none, "PT1H"⟩) ⟨_, rfl⟩)
        ("report", "start")) initial es a ∧
      a.active = true ∧ a.minted ("report", "start") = 1 ∧ a.minted ("report", "start") ≤ 2 := by
  have hrun : Run (UnspentStep (singleStart (.cycle ⟨some 2, none, "PT1H"⟩) ⟨_, rfl⟩)
      ("report", "start")) .initial _ _ :=
    .cons ⟨.reconcile 0 true, rfl⟩ <|
    .cons ⟨.claim 60 [("report", "start")] (fun _ => rfl)
      (forall_mem_singleton.mpr ⟨_, rfl, rfl, by decide⟩), trivial⟩ <|
    .cons ⟨.fire ("report", "start") true _ rfl rfl, trivial⟩ <|
    .cons ⟨.reconcile 70 true, fun _ hr => some.inj hr ▸ rfl⟩ <|
    .cons ⟨.advance ("report", "start") _ rfl rfl, trivial⟩ <| .nil _
  exact ⟨_, _, hrun, rfl, rfl, (mints_what_it_declares _ _ hrun).2.2.1 _ 2 rfl rfl⟩

theorem advanceCycle_hour : advanceCycle hourTexts ⟨some 3, none, "PT1H"⟩ 60 (some 3) 60 =
    some (.next 120 (some 2)) := by
  rw [advanceCycle]
  change some (skipElapsed 60 _ 60 120 (some 2)) = _
  rw [skipElapsed]
  rfl

theorem advanceSchedule_hour (r : Row) :
    Row.advanceSchedule hourTexts ⟨.cycle ⟨some 3, none, "PT1H"⟩, 60, some 3, .scheduled⟩ 60 r =
      r.moveTo 120 (some 2) := by
  have hcycle : TimerDefinition.fromPersisted hourTexts (.cycle ⟨some 3, none, "PT1H"⟩) =
      some (.cycle ⟨some 3, none, "PT1H"⟩) := rfl
  have hnext : advanceCycle hourTexts ⟨some 3, none, "PT1H"⟩ 60 ((some 3).map Int.toNat) 60 =
      some (.next 120 (some 2)) := advanceCycle_hour
  simp only [Row.advanceSchedule, hcycle, hnext]

/-- A timer that fires once mints a second instance after the next boot; and when a deployment comes
back while the poller has its row in hand, the poller moves the due instant backwards. -/
theorem spent_start_mints_again :
    (∃ es a, Run (Step (singleStart (.duration "PT1H") ⟨_, rfl⟩)) initial es a ∧
      (∀ e ∈ es, e.deactivates = false) ∧ a.active = true ∧ a.minted ("report", "start") = 2) ∧
    ∃ es a b, Run (Step (singleStart (.cycle ⟨some 3, none, "PT1H"⟩) ⟨_, rfl⟩))
        initial es a ∧ a.active = true ∧
      Step (singleStart (.cycle ⟨some 3, none, "PT1H"⟩) ⟨_, rfl⟩) a
        (.advance ("report", "start")) b ∧ ¬ Later ("report", "start") a b := by
  have hboot : Run (Step (singleStart (.duration "PT1H") ⟨_, rfl⟩)) initial _ _ :=
    .cons (.reconcile 0 true) <|
    .cons (.claim 60 [("report", "start")] (fun _ => rfl)
      (forall_mem_singleton.mpr ⟨_, rfl, rfl, by decide⟩)) <|
    .cons (.fire ("report", "start") true _ rfl rfl) <|
    .cons (.advance ("report", "start") _ rfl rfl) <|
    .cons (.reconcile 70 true) <|
    .cons (.claim 130 [("report", "start")] (fun key => by
      by_cases hkey : key = ("report", "start")
      · subst hkey
        rfl
      · refine (update_of_ne hkey ..).trans ((update_of_ne hkey ..).trans ?_)
        exact if_neg fun hmem => hkey (mem_singleton.mp hmem))
      (forall_mem_singleton.mpr ⟨_, rfl, rfl, by decide⟩)) <|
    .cons (.fire ("report", "start") true _ rfl rfl) <| .nil _
  have hback : Run (Step (singleStart (.cycle ⟨some 3, none, "PT1H"⟩) ⟨_, rfl⟩)) initial _ _ :=
    .cons (.reconcile 0 true) <|
    .cons (.claim 60 [("report", "start")] (fun _ => rfl)
      (forall_mem_singleton.mpr ⟨_, rfl, rfl, by decide⟩)) <|
    .cons (.fire ("report", "start") true _ rfl rfl) <|
    .cons (.retire true) <|
    .cons (.reconcile 61 true) <| .nil _
  refine ⟨⟨_, _, hboot, by decide, rfl, rfl⟩, _, _, _, hback, rfl,
    .advance ("report", "start") _ rfl rfl, fun hlater => ?_⟩
  obtain ⟨r, hr, hle⟩ := hlater _ rfl
  have hrow : some r = some ⟨.cycle ⟨some 3, none, "PT1H"⟩, 120, some (asI32 2), .scheduled⟩ := by
    refine hr.symm.trans ?_
    exact congrArg some (advanceSchedule_hour _)
  cases hrow
  exact absurd hle (by decide)

end Sutra.Schedule
