import Mathlib
import Sutra.Select.Lint
import Sutra.Select.Sound

/-!
# What packages routes to one process

At runtime a message selects start events of each process by tiers: those that pin its type, else
those whose pattern matches it, else those that name no type, and in each tier only those whose
predicate holds. `resolveHandlers` collects them over the processes of a deployment.

The lint compares one start event of each process, on the types that are pinned or declared, by what
the analysis makes of the predicates. Two start events that one message selects are told apart only
if they were compared and their predicates are carried by the message (`ToldApart`).

* `packaged_routes_to_one_process`: a deployment that passes the lint routes a message to one
  process exactly if any two start events of different processes that it selects are told apart.
* `analysis_sound`: a predicate that is carried covers the message; every true predicate of a
  message covers it exactly if no attribute with a closed domain is absent.
* `undecoded_routed_by_type`: a message that was not decoded is routed by its type exactly if the
  predicates of the tier that its type takes are true of a context without attributes.
-/

namespace Sutra.Select

open SortedMap List Subscriber

/-! ## The runtime -/

def holds (F : Feel) (ctx : Context) (source : SourceBinding) : Bool :=
  source.filterExpression.all fun e => evalBoolean F ctx e = some true

def Process.starts (p : Process) : List StartEvent :=
  p.startEvents.insertionSort fun a b => a.id ≤ b.id

def exactTier (mt : String) (source : SourceBinding) : Bool := source.messageTypeValue = some mt

def patternTier (fullMatch : String → String → Bool) (mt : String) (source : SourceBinding) :
    Bool :=
  source.messageTypePattern.any (fullMatch mt)

def catchAllTier (source : SourceBinding) : Bool :=
  !(source.messageTypeValue.isSome || source.messageTypePattern.isSome)

def startsOfTier (F : Feel) (p : Process) (channel : String) (ctx : Context)
    (tier : SourceBinding → Bool) : List StartEvent :=
  (p.starts.filter fun s => channel ∈ s.channels).filter fun s =>
    s.source.any fun source => tier source && holds F ctx source

def typedStarts (F : Feel) (fullMatch : String → String → Bool) (p : Process) (channel : String)
    (ctx : Context) : List StartEvent :=
  match ctx.messageType with
  | none => []
  | some mt =>
    if startsOfTier F p channel ctx (exactTier mt) = [] then
      startsOfTier F p channel ctx (patternTier fullMatch mt)
    else startsOfTier F p channel ctx (exactTier mt)

def selectStartEvents (F : Feel) (fullMatch : String → String → Bool) (p : Process)
    (channel : String)
    (ctx : Context) : List StartEvent :=
  if typedStarts F fullMatch p channel ctx = [] then startsOfTier F p channel ctx catchAllTier
  else typedStarts F fullMatch p channel ctx

structure HandlerMatch where
  processId : String
  startEventId : String
  deriving DecidableEq

/-- **The start events of a deployment that a message selects.** -/
def resolveHandlers (F : Feel) (fullMatch : String → String → Bool) (d : Deployment)
    (channel : String)
    (ctx : Context) : List HandlerMatch :=
  (d.processes.flatMap fun p =>
    (selectStartEvents F fullMatch p channel ctx).map fun s => ⟨p.id, s.id⟩).insertionSort
      fun a b => a.processId < b.processId ∨
        (a.processId = b.processId ∧ a.startEventId ≤ b.startEventId)

/-! ## The vocabulary and a message -/

def Declares (codec : Codec) (mt : Option String) (spec : AttributeSpec) : Prop :=
  spec ∈ codec.declaredAttributes mt ∨
    (codec.declaredMessageTypes = [] ∧ spec ∈ codec.declaredAttributes none)

def Conforms (codec : Codec) (ctx : Context) : Prop :=
  ∀ spec, Declares codec ctx.messageType spec → ctx.attr spec.key = .null ∨
    ∃ l : Lit, ctx.attr spec.key = l.toValue ∧ l.matchesKind spec.kind = true ∧
      (spec.domain ≠ [] → l ∈ spec.domain)

def Widens (u spec : AttributeSpec) : Prop :=
  u.domain ≠ [] → spec.domain ≠ [] ∧ spec.domain ⊆ u.domain

theorem Widens.refl (u : AttributeSpec) : Widens u u := fun h => ⟨h, fun _ hl => hl⟩

variable {u : AttributeSpec} {b union : SortedMap String AttributeSpec} {codec : Codec}
  {key : String} {a : Subscriber} {unanalysable : Option GroupVerdict}

theorem Widens.trans {v w : AttributeSpec} (huv : Widens u v) (hvw : Widens v w) : Widens u w := by
  intro hu
  obtain ⟨hv, hsub⟩ := huv hu
  obtain ⟨hw, hsub'⟩ := hvw hv
  exact ⟨hw, List.Subset.trans hsub' hsub⟩

def Covered (spec : AttributeSpec) (union : SortedMap String AttributeSpec) : Prop :=
  ∃ u, union.get spec.key = some u ∧ Widens u spec

structure Grows (union union' : SortedMap String AttributeSpec) : Prop where
  wider : ∀ k u, union.get k = some u → ∃ u', union'.get k = some u' ∧ Widens u' u
  keyed : (∀ k u, union.get k = some u → u.key = k) → ∀ k u, union'.get k = some u → u.key = k

theorem Grows.refl (union : SortedMap String AttributeSpec) : Grows union union :=
  ⟨fun _ u h => ⟨u, h, .refl u⟩, id⟩

theorem Grows.trans {a c : SortedMap String AttributeSpec} (hab : Grows a b) (hbc : Grows b c) :
    Grows a c := by
  refine ⟨fun k u h => ?_, hbc.keyed ∘ hab.keyed⟩
  obtain ⟨v, hv, hvu⟩ := hab.wider k u h
  obtain ⟨w, hw, hwv⟩ := hbc.wider k v hv
  exact ⟨w, hw, hwv.trans hvu⟩

variable {spec : AttributeSpec}

theorem Covered.mono {a : SortedMap String AttributeSpec} (hab : Grows a b)
    (h : Covered spec a) : Covered spec b := by
  obtain ⟨u, hu, hwide⟩ := h
  obtain ⟨v, hv, hvu⟩ := hab.wider _ u hu
  exact ⟨v, hv, hvu.trans hwide⟩

theorem mem_pushNew {α : Type} [DecidableEq α] {out new : List α} {x : α} :
    x ∈ pushNew out new ↔ x ∈ out ∨ x ∈ new := by
  rw [pushNew]
  induction new generalizing out with
  | nil => simp
  | cons y new ih =>
    rw [foldl_cons, ih, mem_cons, ← or_assoc]
    refine or_congr_left ?_
    split
    · rename_i hmem
      exact ⟨.inl, fun h => h.elim id fun heq => heq ▸ hmem⟩
    · rw [mem_append, mem_singleton]

theorem Grows.insert (hkey : (∀ k u, union.get k = some u → u.key = k) → u.key = spec.key)
    (hwide : ∀ v, union.get spec.key = some v → Widens u v) :
    Grows union (union.insert spec.key u) := by
  refine ⟨fun k v hv => ?_, fun hkeyed => forall_insert hkeyed (hkey hkeyed)⟩
  rw [get_insert]
  split
  · rename_i heq
    exact ⟨u, rfl, hwide v (heq ▸ hv)⟩
  · exact ⟨v, hv, .refl v⟩

theorem addSpec_grows {union' : SortedMap String AttributeSpec}
    (h : addSpec union spec = some union') : Grows union union' ∧ Covered spec union' := by
  rw [addSpec] at h
  split at h
  · rename_i hnone
    cases h
    refine ⟨.insert (fun _ => rfl) fun v hv => ?_, spec, get_insert_self .., .refl _⟩
    rw [hnone] at hv
    cases hv
  · rename_i existing hsome
    have hkey : (∀ k u, union.get k = some u → u.key = k) → existing.key = spec.key :=
      fun hkeyed => hkeyed _ _ hsome
    split at h
    · cases h
    · split at h
      · cases h
        refine ⟨.insert hkey fun v _ hne => absurd rfl hne, _, get_insert_self .., ?_⟩
        exact fun hne => absurd rfl hne
      · rename_i hdomains
        rw [not_or] at hdomains
        cases h
        refine ⟨.insert hkey fun v hv => ?_, _, get_insert_self .., ?_⟩
        · rw [hsome] at hv
          cases hv
          exact fun _ => ⟨hdomains.1, fun l hl => mem_pushNew.mpr (.inl hl)⟩
        · exact fun _ => ⟨hdomains.2, fun l hl => mem_pushNew.mpr (.inr hl)⟩

/-- A fold whose state only grows keeps what each of its steps puts there. -/
theorem foldlM_collects {α β : Type} {f : β → α → Option β} {R : β → β → Prop} {P : α → β → Prop}
    (hrefl : ∀ b, R b b) (htrans : ∀ a b c, R a b → R b c → R a c)
    (hmono : ∀ x a b, R a b → P x a → P x b)
    (hstep : ∀ a b x, f a x = some b → R a b ∧ P x b) {l : List α} {a b : β}
    (h : l.foldlM f a = some b) : R a b ∧ ∀ x ∈ l, P x b := by
  induction l generalizing a with
  | nil =>
    cases h
    exact ⟨hrefl _, nofun⟩
  | cons x l ih =>
    rw [foldlM_cons] at h
    obtain ⟨c, hc, hrest⟩ := Option.bind_eq_some_iff.mp h
    obtain ⟨hac, hx⟩ := hstep _ _ _ hc
    obtain ⟨hcb, hl⟩ := ih hrest
    refine ⟨htrans _ _ _ hac hcb, fun y hy => ?_⟩
    rcases mem_cons.mp hy with rfl | hy
    · exact hmono _ _ _ hcb hx
    · exact hl y hy

theorem unionSpecs_covers
    (h : unionSpecs codec = some union) : (∀ k u, union.get k = some u → u.key = k) ∧
      ∀ t ∈ codec.declaredMessageTypes, ∀ spec ∈ codec.declaredAttributes (some t),
        Covered spec union := by
  rw [unionSpecs] at h
  have hinner : ∀ a b t, (codec.declaredAttributes (some t)).foldlM addSpec a = some b →
      Grows a b ∧ ∀ spec ∈ codec.declaredAttributes (some t), Covered spec b :=
    fun _ _ _ h => foldlM_collects (P := Covered) .refl (fun _ _ _ => .trans)
      (fun _ _ _ => .mono) (fun _ _ _ => addSpec_grows) h
  obtain ⟨hgrows, hall⟩ := foldlM_collects .refl (fun _ _ _ => .trans)
    (fun _ _ _ hab hx spec hspec => (hx spec hspec).mono hab) hinner h
  exact ⟨hgrows.keyed (nofun), hall⟩

theorem mem_of_vocabulary {pinned : Option String} (h : vocabulary codec pinned key = some spec) :
    spec.key = key ∧ ((∃ t, pinned = some t ∧ spec ∈ codec.declaredAttributes (some t)) ∨
      (codec.declaredMessageTypes = [] ∧ spec ∈ codec.declaredAttributes none) ∨
      ∃ union k, pinned = none ∧ codec.declaredMessageTypes ≠ [] ∧ unionSpecs codec = some union ∧
        union.get k = some spec) := by
  rw [vocabulary] at h
  cases hdecl : declaredAttributes codec pinned with
  | none =>
    rw [hdecl] at h
    cases h
  | some m =>
    rw [hdecl] at h
    rw [declaredAttributes] at hdecl
    have hmem : ∀ specs : List AttributeSpec,
        m = .ofList (specs.map fun s => (s.key, s)) → spec.key = key ∧ spec ∈ specs := by
      rintro specs rfl
      obtain ⟨s, hs, heq⟩ := mem_map.mp (mem_of_get_ofList h)
      cases heq
      exact ⟨rfl, hs⟩
    split at hdecl
    · cases hdecl
    · cases hdecl
    · rename_i specs _ hspecs
      rw [declaredSpecs.eq_def] at hspecs
      obtain ⟨hkey, hin⟩ := hmem specs (Option.some.inj hdecl).symm
      refine ⟨hkey, ?_⟩
      split at hspecs
      · rename_i t
        cases hspecs
        exact .inl ⟨t, rfl, hin⟩
      · split at hspecs
        · rename_i hempty
          cases hspecs
          exact .inr (.inl ⟨hempty, hin⟩)
        · rename_i htypes
          obtain ⟨union, hunion, heq⟩ := Option.map_eq_some_iff.mp hspecs
          rw [← heq] at hin
          obtain ⟨e, he, rfl⟩ := mem_map.mp hin
          exact .inr (.inr ⟨union, e.1, rfl, htypes, hunion, mem_entries.mp he⟩)

theorem exists_declares {mt pinned : Option String} {domain : List Lit}
    (htype : codec.declaredMessageTypes ≠ [] → ∃ t ∈ codec.declaredMessageTypes, mt = some t)
    (hpinned : pinned = none ∨ pinned = mt)
    (hclosed : (vocabulary codec pinned).closedDomain key = some domain)
    (hown : ∃ spec, Declares codec mt spec ∧ spec.key = key) :
    ∃ spec, Declares codec mt spec ∧ spec.key = key ∧ spec.domain ≠ [] ∧ spec.domain ⊆ domain := by
  rw [Specs.closedDomain] at hclosed
  obtain ⟨u, hu, hdomain⟩ := Option.bind_eq_some_iff.mp hclosed
  rw [AttributeSpec.closedDomain] at hdomain
  split at hdomain
  · cases hdomain
  · rename_i hne
    cases hdomain
    obtain ⟨hkey, ⟨t, ht, hmem⟩ | hmem | ⟨union, k, -, htypes, hunion, hget⟩⟩ :=
      mem_of_vocabulary hu
    · have hmt : some t = mt := by
        rcases hpinned with hnone | hmt
        · rw [hnone] at ht
          cases ht
        · exact ht.symm.trans hmt
      exact ⟨u, .inl (hmt ▸ hmem), hkey, hne, fun _ hl => hl⟩
    · exact ⟨u, .inr hmem, hkey, hne, fun _ hl => hl⟩
    · obtain ⟨spec, hdeclares, hspec⟩ := hown
      obtain ⟨t, ht, rfl⟩ := htype htypes
      obtain ⟨hkeyed, hcovers⟩ := unionSpecs_covers hunion
      have hin : spec ∈ codec.declaredAttributes (some t) :=
        hdeclares.resolve_right fun h => htypes h.1
      obtain ⟨u', hu', hwide⟩ := hcovers t ht spec hin
      -- the union has one declaration for the key
      rw [hspec, ← hkey, hkeyed k u hget, hget] at hu'
      cases hu'
      exact ⟨spec, hdeclares, hspec, hwide hne⟩

/-! ## What a group without an error is -/

/-- The predicates of two subscribers were compared and do not meet. -/
def Apart (a b : Subscriber) : Prop :=
  ∃ x y, a.analysis = .ok x ∧ b.analysis = .ok y ∧ overlapWitness x y = none

theorem exists_of_predDisjoint {x y : Except Opacity (List Cube)}
    (h : predDisjoint x y = .disjoint) :
    ∃ a b, x = .ok a ∧ y = .ok b ∧ overlapWitness a b = none := by
  rw [predDisjoint.eq_def] at h
  split at h
  · cases h
  · cases h
  · split at h
    · cases h
    · rename_i hnone
      exact ⟨_, _, rfl, rfl, hnone⟩

variable {l : List Subscriber}

theorem comparePairs_none
    (h : comparePairs a l unanalysable = .ok none) : unanalysable = none ∧ ∀ b ∈ l, Apart a b := by
  induction l generalizing unanalysable with
  | nil =>
    cases h
    exact ⟨rfl, nofun⟩
  | cons b l ih =>
    rw [comparePairs] at h
    split at h
    · rename_i hdisjoint
      obtain ⟨hnone, hall⟩ := ih h
      exact ⟨hnone, forall_mem_cons.mpr ⟨exists_of_predDisjoint hdisjoint, hall⟩⟩
    · cases h
    · cases unanalysable with
      | none => cases (ih h).1
      | some v => cases (ih h).1

def Remembered (v : GroupVerdict) : Prop := ∃ process node why, v = .unanalysable process node why

theorem comparePairs_remembers {unanalysable' : Option GroupVerdict}
    (h : comparePairs a l unanalysable = .ok unanalysable')
    (hv : ∀ v ∈ unanalysable, Remembered v) : ∀ v ∈ unanalysable', Remembered v := by
  induction l generalizing unanalysable with
  | nil =>
    cases h
    exact hv
  | cons b l ih =>
    rw [comparePairs] at h
    split at h
    · exact ih h hv
    · cases h
    · refine ih h ?_
      cases unanalysable with
      | none =>
        rintro v ⟨⟩
        exact ⟨_, _, _, rfl⟩
      | some v => exact hv

theorem pairwise_of_groupVerdict
    (h : groupVerdict l unanalysable = .disjoint) (hv : ∀ v ∈ unanalysable, Remembered v) :
    unanalysable = none ∧ l.Pairwise Apart := by
  induction l generalizing unanalysable with
  | nil =>
    cases unanalysable with
    | none => exact ⟨rfl, List.Pairwise.nil⟩
    | some v =>
      obtain ⟨_, _, _, rfl⟩ := hv v rfl
      cases h
  | cons a l ih =>
    rw [groupVerdict] at h
    split at h
    · cases h
    · rename_i unanalysable' hpairs
      obtain ⟨rfl, hrest⟩ := ih h (comparePairs_remembers hpairs hv)
      obtain ⟨hnone, hall⟩ := comparePairs_none hpairs
      exact ⟨hnone, pairwise_cons.mpr ⟨hall, hrest⟩⟩

/-- **Two members of a group that is reported without an error are apart.** -/
theorem apart_of_reportGroup {channel mt : String} {group : List Subscriber}
    (h : reportGroup channel mt group = []) {b : Subscriber} (ha : a ∈ group) (hb : b ∈ group)
    (hne : a ≠ b) : Apart a b ∨ Apart b a := by
  have hpairwise : group.Pairwise Apart := by
    rw [reportGroup] at h
    split at h
    · rename_i hshort
      match group, hshort with
      | [], _ => exact List.Pairwise.nil
      | [_], _ => exact pairwise_singleton ..
    · split at h
      · rename_i hverdict
        exact (pairwise_of_groupVerdict hverdict nofun).2
      · split at h <;> cases h
      · cases h
  have hsymm : Std.Symm fun a b => Apart a b ∨ Apart b a := ⟨fun _ _ => .symm⟩
  have heither : group.Pairwise fun a b => Apart a b ∨ Apart b a := hpairwise.imp .inl
  exact heither.forall ha hb hne

theorem mem_dedupByProcess {seen : List String} (ha : a ∈ l)
    (honly : ∀ b ∈ l, b.processId = a.processId → b = a) (hseen : a.processId ∉ seen) :
    a ∈ dedupByProcess l seen := by
  induction l generalizing seen with
  | nil => cases ha
  | cons b l ih =>
    have hrest := fun c hc => honly c (.tail _ hc)
    rw [dedupByProcess]
    split
    · rename_i hin
      refine ih ((mem_cons.mp ha).resolve_left ?_) hrest hseen
      rintro rfl
      exact hseen hin
    · by_cases heq : b.processId = a.processId
      · rw [honly b mem_cons_self heq]
        exact .head _
      · refine mem_cons_of_mem _ (ih ((mem_cons.mp ha).resolve_left ?_) hrest ?_)
        · rintro rfl
          exact heq rfl
        · exact fun hin => (mem_cons.mp hin).elim (fun h => heq h.symm) hseen

/-! ## What a selected start event is -/

def Claims (fullMatch : String → String → Bool) (mt : Option String) (source : SourceBinding) :
    Prop :=
  catchAllTier source = true ∨
    ∃ t, mt = some t ∧ (exactTier t source = true ∨ patternTier fullMatch t source = true)

section Runtime

variable {F : Feel} {fullMatch : String → String → Bool} {d : Deployment} {chan : ChannelDefinition}
  {ctx : Context} {channel : String} {s : StartEvent} {a : Subscriber} {subs : List Subscriber}

theorem of_mem_startsOfTier {p : Process}
    {tier : SourceBinding → Bool} (h : s ∈ startsOfTier F p channel ctx tier) :
    s ∈ p.startEvents ∧ ∃ source, s.source = some source ∧ source.channel = channel ∧
      tier source ∧ holds F ctx source := by
  obtain ⟨hstart, hany⟩ := mem_filter.mp h
  obtain ⟨hin, hchannel⟩ := mem_filter.mp hstart
  refine ⟨(mem_insertionSort _).mp hin, ?_⟩
  cases hsource : s.source with
  | none =>
    rw [hsource] at hany
    cases hany
  | some source =>
    rw [hsource] at hany
    have hboth := Bool.and_eq_true_iff.mp hany
    refine ⟨source, rfl, ?_, hboth.1, hboth.2⟩
    have hlist := of_decide_eq_true hchannel
    rw [StartEvent.channels, hsource] at hlist
    exact (mem_singleton.mp hlist).symm

theorem exists_tier {p : Process}
    (h : s ∈ selectStartEvents F fullMatch p channel ctx) : ∃ tier : SourceBinding → Bool,
      s ∈ startsOfTier F p channel ctx tier ∧
        ∀ source, tier source → Claims fullMatch ctx.messageType source := by
  rw [selectStartEvents] at h
  split at h
  · exact ⟨_, h, fun _ => .inl⟩
  · rw [typedStarts] at h
    split at h
    · cases h
    · rename_i mt hmt
      split at h
      · exact ⟨_, h, fun _ ht => .inr ⟨mt, hmt, .inr ht⟩⟩
      · exact ⟨_, h, fun _ ht => .inr ⟨mt, hmt, .inl ht⟩⟩

structure Selected (F : Feel) (fullMatch : String → String → Bool) (d : Deployment)
    (chan : ChannelDefinition) (ctx : Context) (a : Subscriber) : Prop where
  mem : a ∈ subscribersOf F d chan
  claims : Claims fullMatch ctx.messageType a.source
  holds : holds F ctx a.source = true

theorem selected_of_mem {h : HandlerMatch}
    (hmem : h ∈ resolveHandlers F fullMatch d chan.channelName ctx) :
    ∃ a, Selected F fullMatch d chan ctx a ∧ a.processId = h.processId := by
  rw [resolveHandlers, mem_insertionSort] at hmem
  obtain ⟨p, hp, hmap⟩ := mem_flatMap.mp hmem
  obtain ⟨s, hs, rfl⟩ := mem_map.mp hmap
  obtain ⟨tier, htier, hclaims⟩ := exists_tier hs
  obtain ⟨hin, source, hsource, hchannel, ht, hholds⟩ := of_mem_startsOfTier htier
  refine ⟨⟨p.id, s.id, source, analysisOf F chan.codec source⟩,
    ⟨?_, hclaims source ht, hholds⟩, rfl⟩
  refine mem_flatMap.mpr ⟨p, hp, mem_filterMap.mpr ⟨s, hin, ?_⟩⟩
  rw [hsource, Option.bind_some, if_pos hchannel]

theorem of_mem_subscribersOf (h : a ∈ subscribersOf F d chan) :
    ∃ p ∈ d.processes, p.id = a.processId ∧ a ∈ subscribersOfProcess F chan p ∧
      a.analysis = analysisOf F chan.codec a.source := by
  obtain ⟨p, hp, hmem⟩ := mem_flatMap.mp h
  obtain ⟨s, hs, hbind⟩ := mem_filterMap.mp hmem
  obtain ⟨source, hsource, hif⟩ := Option.bind_eq_some_iff.mp hbind
  split at hif
  · cases hif
    exact ⟨p, hp, rfl, hmem, rfl⟩
  · cases hif

/-- The lint has taken the start event for its process, and has read its predicate as the message
does: of the attributes that its vocabulary closes, those that the message has are declared for the
type of the message, and atoms on attributes that are there make the predicate true. -/
structure Seen (F : Feel) (d : Deployment) (chan : ChannelDefinition) (ctx : Context)
    (a : Subscriber) : Prop where
  only : ∀ c ∈ subscribersOf F d chan, c.processId = a.processId → c = a
  declared : ∀ key domain,
    (vocabulary chan.codec a.source.messageTypeValue).closedDomain key = some domain →
      ctx.attr key = .null ∨ ∃ spec, Declares chan.codec ctx.messageType spec ∧ spec.key = key
  carried : ∀ e ∈ a.source.filterExpression,
    Carried F (vocabulary chan.codec a.source.messageTypeValue) ctx e false

/-- The lint has compared the two start events, on a type that it tries. -/
structure ToldApart (F : Feel) (fullMatch : String → String → Bool) (d : Deployment)
    (chan : ChannelDefinition) (ctx : Context) (a b : Subscriber) : Prop where
  left : Seen F d chan ctx a
  right : Seen F d chan ctx b
  tried : ∀ t, ctx.messageType = some t → patternTier fullMatch t a.source = true →
    patternTier fullMatch t b.source = true → chan.codec.declaredMessageTypes = [] →
    ∃ c ∈ subscribersOf F d chan, c.source.messageTypeValue = some t

theorem eq_of_length_le_one {α : Type} {l : List α} (h : l.length ≤ 1) {a b : α} (ha : a ∈ l)
    (hb : b ∈ l) : a = b := by
  match l, h with
  | [_], _ => exact (mem_singleton.mp ha).trans (mem_singleton.mp hb).symm

variable {a b : Subscriber}

theorem Claims.pinned {mt : Option String} {source : SourceBinding}
    (h : Claims fullMatch mt source) :
    source.messageTypeValue = none ∨ source.messageTypeValue = mt := by
  rcases h with hcatch | ⟨t, rfl, hexact | hpattern⟩
  · rw [catchAllTier, Bool.not_eq_true', Bool.or_eq_false_iff] at hcatch
    exact .inl (Option.isSome_eq_false_iff.mp hcatch.1 |> Option.isNone_iff_eq_none.mp)
  · exact .inr (of_decide_eq_true hexact)
  · refine source.exclusive.imp_right fun hnone => ?_
    rw [patternTier, hnone] at hpattern
    cases hpattern

/-! ## The groups of the lint -/

theorem mem_tiers (ha : a ∈ subs) :
    a ∈ subs.filter (·.isCatchAll) ++ subs.filter (·.isExact) ++ subs.filter (·.isPattern) := by
  rw [mem_append, mem_append, mem_filter, mem_filter, mem_filter, isCatchAll, isPattern]
  cases a.isExact <;> cases a.source.messageTypePattern.isSome <;> simp [ha]

theorem mem_group {t : String} (ha : a ∈ subs)
    (h : exactTier t a.source ∨ patternTier fullMatch t a.source) :
    a ∈ (subs.filter (·.isExact)).filter (fun s => s.source.messageTypeValue = some t) ++
      (subs.filter (·.isPattern)).filter
        (fun s => s.source.messageTypePattern.any (fullMatch t)) := by
  rw [mem_append, mem_filter, mem_filter, mem_filter, mem_filter]
  rcases h with hexact | hpattern
  · refine .inl ⟨⟨ha, ?_⟩, hexact⟩
    rw [isExact, of_decide_eq_true hexact]
    rfl
  · refine .inr ⟨⟨ha, ?_⟩, hpattern⟩
    rw [patternTier] at hpattern
    rw [isPattern, isExact]
    rcases a.source.exclusive with hvalue | hnone
    · rw [hvalue]
      cases hp : a.source.messageTypePattern with
      | none =>
        rw [hp] at hpattern
        cases hpattern
      | some p => rfl
    · rw [hnone] at hpattern
      cases hpattern

theorem mem_candidates {exact : List Subscriber} {declared : List String} {t : String}
    (h : (∃ a ∈ exact, a.source.messageTypeValue = some t) ∨ t ∈ declared) :
    t ∈ candidates exact declared := by
  refine mem_pushNew.mpr (.inr (mem_append.mpr ?_))
  exact h.imp_left fun ⟨a, ha, heq⟩ => mem_filterMap.mpr ⟨a, ha, heq⟩

section Message

variable (hconforms : Conforms chan.codec ctx) (htype : chan.codec.declaredMessageTypes ≠ [] →
    ∃ t ∈ chan.codec.declaredMessageTypes, ctx.messageType = some t)
include hconforms htype

theorem Selected.covers (ha : Selected F fullMatch d chan ctx a) (hseen : Seen F d chan ctx a)
    {cubes : List Cube} (hcubes : a.analysis = .ok cubes) : Covers cubes ctx.attr := by
  obtain ⟨_, _, _, _, hanalysis⟩ := of_mem_subscribersOf ha.mem
  rw [hanalysis, analysisOf] at hcubes
  split at hcubes
  · cases hcubes
    exact ⟨_, mem_singleton.mpr rfl, Cube.admits_any⟩
  · rename_i e he
    have hwithin : Within (vocabulary chan.codec a.source.messageTypeValue) ctx.attr := by
      intro key domain hclosed
      rcases hseen.declared key domain hclosed with hnull | hown
      · exact .inl hnull
      obtain ⟨spec, hspec, rfl, hne, hsub⟩ := exists_declares htype ha.claims.pinned hclosed hown
      rcases hconforms spec hspec with hnull | ⟨l, hl, -, hin⟩
      · exact .inl hnull
      · exact .inr ⟨l, hsub (hin hne), hl⟩
    exact covers_of_carried hwithin hcubes (hseen.carried e he)

theorem Selected.not_apart (ha : Selected F fullMatch d chan ctx a)
    (hb : Selected F fullMatch d chan ctx b) (hseen : Seen F d chan ctx a)
    (hseen' : Seen F d chan ctx b) : ¬Apart a b := by
  rintro ⟨x, y, hx, hy, hnone⟩
  have hsome := overlapWitness_isSome (ha.covers hconforms htype hseen hx)
    (hb.covers hconforms htype hseen' hy)
  rw [hnone] at hsome
  cases hsome

end Message

section Checked

variable (hseen : Seen F d chan ctx a) (hseen' : Seen F d chan ctx b)
include hseen hseen'

theorem Seen.apart {channel mt : String}
    {group : List Subscriber} (hgroup : ∀ c ∈ group, c ∈ subscribersOf F d chan)
    (h : reportGroup channel mt (dedupByProcess group []) = []) (ha : a ∈ group)
    (hb : b ∈ group) (hne : a.processId ≠ b.processId) : Apart a b ∨ Apart b a := by
  have hkept : ∀ c ∈ group, Seen F d chan ctx c → c ∈ dedupByProcess group [] := fun c hc hc' =>
    mem_dedupByProcess hc (fun c' hmem heq => hc'.only c' (hgroup c' hmem) heq) not_mem_nil
  exact apart_of_reportGroup h (hkept a ha hseen) (hkept b hb hseen') fun heq => hne (heq ▸ rfl)

variable (h : checkNonBroadcastUniqueness fullMatch chan.channelName (subscribersOf F d chan)
  chan.codec.declaredMessageTypes = [])
include h

/-- A subscriber that names no type was compared with all others. -/
theorem Seen.apart_catchAll (ha : a ∈ subscribersOf F d chan)
    (hb : b ∈ subscribersOf F d chan) (hne : a.processId ≠ b.processId)
    (hcatch : catchAllTier a.source) : Apart a b ∨ Apart b a := by
  have hall : a.isCatchAll := by
    rw [isCatchAll, isExact, ← Bool.not_or]
    exact hcatch
  have hin : a ∈ (subscribersOf F d chan).filter (·.isCatchAll) := mem_filter.mpr ⟨ha, hall⟩
  have hif := (append_eq_nil_iff.mp h).1
  have hmore : ((subscribersOf F d chan).filter (·.isCatchAll)).length > 1 ∨
      ((subscribersOf F d chan).filter (·.isCatchAll) ≠ [] ∧
        ((subscribersOf F d chan).filter (·.isExact) ≠ [] ∨
          (subscribersOf F d chan).filter (·.isPattern) ≠ [])) := by
    rcases mem_append.mp (mem_tiers hb) with hbtier | hbtier
    · rcases mem_append.mp hbtier with hbtier | hbtier
      · refine .inl (Nat.lt_of_not_le fun hle => ?_)
        exact hne (congrArg processId (eq_of_length_le_one hle hin hbtier))
      · exact .inr ⟨ne_nil_of_mem hin, .inl (ne_nil_of_mem hbtier)⟩
    · exact .inr ⟨ne_nil_of_mem hin, .inr (ne_nil_of_mem hbtier)⟩
  rw [if_pos hmore] at hif
  refine hseen.apart hseen' (fun c hc => ?_) hif (mem_tiers ha) (mem_tiers hb) hne
  rcases mem_append.mp hc with hc | hc
  · rcases mem_append.mp hc with hc | hc
    · exact (mem_filter.mp hc).1
    · exact (mem_filter.mp hc).1
  · exact (mem_filter.mp hc).1

theorem Seen.apart_typed (ha : a ∈ subscribersOf F d chan)
    (hb : b ∈ subscribersOf F d chan) (hne : a.processId ≠ b.processId) {t : String}
    (htried : (∃ c ∈ subscribersOf F d chan, c.source.messageTypeValue = some t) ∨
      t ∈ chan.codec.declaredMessageTypes)
    (hat : exactTier t a.source ∨ patternTier fullMatch t a.source)
    (hbt : exactTier t b.source ∨ patternTier fullMatch t b.source) : Apart a b ∨ Apart b a := by
  have hcandidate : t ∈ candidates ((subscribersOf F d chan).filter (·.isExact))
      chan.codec.declaredMessageTypes := by
    refine mem_candidates (htried.imp_left fun hpinned => ?_)
    obtain ⟨c, hc, hvalue⟩ := hpinned
    refine ⟨c, mem_filter.mpr ⟨hc, ?_⟩, hvalue⟩
    rw [isExact, hvalue]
    rfl
  have hgroup := flatMap_eq_nil_iff.mp (append_eq_nil_iff.mp h).2 t hcandidate
  refine hseen.apart hseen' (fun c hc => ?_) hgroup (mem_group ha hat) (mem_group hb hbt) hne
  rcases mem_append.mp hc with hc | hc <;>
    exact (mem_filter.mp (mem_filter.mp hc).1).1

end Checked

/-- **Two start events that one message selects were compared**, if they are told apart. -/
theorem ToldApart.compared (hsep : ToldApart F fullMatch d chan ctx a b)
    (h : checkNonBroadcastUniqueness fullMatch chan.channelName (subscribersOf F d chan)
      chan.codec.declaredMessageTypes = [])
    (ha : Selected F fullMatch d chan ctx a) (hb : Selected F fullMatch d chan ctx b)
    (htype : chan.codec.declaredMessageTypes ≠ [] →
      ∃ t ∈ chan.codec.declaredMessageTypes, ctx.messageType = some t)
    (hne : a.processId ≠ b.processId) : Apart a b ∨ Apart b a := by
  rcases ha.claims with hcatch | ⟨t, ht, hat⟩
  · exact hsep.left.apart_catchAll hsep.right h ha.mem hb.mem hne hcatch
  · rcases hb.claims with hcatch | ⟨t', ht', hbt⟩
    · exact (hsep.right.apart_catchAll hsep.left h hb.mem ha.mem hne.symm hcatch).symm
    · cases ht.symm.trans ht'
      have htried := @Seen.apart_typed _ _ _ _ _ _ _ hsep.left hsep.right h ha.mem hb.mem hne t
      rcases hat with hexact | hap
      · exact htried (.inl ⟨a, ha.mem, of_decide_eq_true hexact⟩) (.inl hexact) hbt
      · rcases hbt with hexact | hbp
        · exact htried (.inl ⟨b, hb.mem, of_decide_eq_true hexact⟩) (.inr hap) (.inl hexact)
        · -- two patterns: the type is declared, or pinned by a third
          by_cases hnone : chan.codec.declaredMessageTypes = []
          · exact htried (.inl (hsep.tried t ht hap hbp hnone)) (.inr hap) (.inr hbp)
          · obtain ⟨t', hdeclared, ht'⟩ := htype hnone
            cases ht.symm.trans ht'
            exact htried (.inr hdeclared) (.inr hap) (.inr hbp)

theorem mem_startsOfTier {p : Process} {source : SourceBinding} {tier : SourceBinding → Bool}
    (hs : s ∈ p.startEvents) (hsource : s.source = some source)
    (hchannel : source.channel = channel)
    (ht : tier source = true) (hholds : holds F ctx source = true) :
    s ∈ startsOfTier F p channel ctx tier := by
  refine mem_filter.mpr ⟨mem_filter.mpr ⟨(mem_insertionSort _).mpr hs, decide_eq_true ?_⟩, ?_⟩
  · rw [StartEvent.channels, hsource]
    exact mem_singleton.mpr hchannel.symm
  · rw [hsource]
    exact Bool.and_eq_true_iff.mpr ⟨ht, hholds⟩

/-- A process with a start event that the message claims is among the handlers. -/
theorem Selected.handled (ha : Selected F fullMatch d chan ctx a) :
    ∃ x ∈ resolveHandlers F fullMatch d chan.channelName ctx, x.processId = a.processId := by
  obtain ⟨p, hp, hmem⟩ := mem_flatMap.mp ha.mem
  obtain ⟨s, hs, hbind⟩ := mem_filterMap.mp hmem
  obtain ⟨source, hsource, hif⟩ := Option.bind_eq_some_iff.mp hbind
  split at hif
  · rename_i hchannel
    cases hif
    have hin : ∀ tier : SourceBinding → Bool, tier source = true →
        s ∈ startsOfTier F p chan.channelName ctx tier := fun tier ht =>
      mem_startsOfTier hs hsource hchannel ht ha.holds
    have hne : selectStartEvents F fullMatch p chan.channelName ctx ≠ [] := by
      intro hnil
      rw [selectStartEvents] at hnil
      split at hnil
      · rename_i htyped
        rcases ha.claims with hcatch | ⟨t, ht, hexact | hpattern⟩
        · exact ne_nil_of_mem (hin _ hcatch) hnil
        · rw [typedStarts, ht] at htyped
          dsimp only at htyped
          rw [if_neg (ne_nil_of_mem (hin _ hexact))] at htyped
          exact ne_nil_of_mem (hin _ hexact) htyped
        · rw [typedStarts, ht] at htyped
          dsimp only at htyped
          split at htyped
          · exact ne_nil_of_mem (hin _ hpattern) htyped
          · rename_i hexact
            exact hexact htyped
      · rename_i htyped
        exact htyped hnil
    obtain ⟨s', hs'⟩ := exists_mem_of_ne_nil _ hne
    refine ⟨⟨p.id, s'.id⟩, ?_, rfl⟩
    rw [resolveHandlers, mem_insertionSort]
    exact mem_flatMap.mpr ⟨p, hp, mem_map.mpr ⟨s', hs', rfl⟩⟩
  · cases hif

end Runtime

/-! ## The result -/

/-- An evaluator without anything beyond the recognised form. -/
def plainFeel : Feel :=
  ⟨fun _ _ _ => none, fun _ _ => none, fun _ _ => none, fun _ _ => .null, id, fun _ _ _ _ => none,
    fun _ _ _ _ => none, fun _ _ => .null⟩

def notDirection (id direction : String) : StartEvent :=
  ⟨id, some ⟨"payments", none, none,
    some (.compare (.path ["attr", "direction"]) .neq (.literal (.string direction))), .inl rfl⟩⟩

def directionSpec : AttributeSpec := ⟨"direction", .text, [.text "incoming", .text "outgoing"]⟩

def payments : ChannelDefinition := ⟨"payments", ⟨["payment"], fun _ => [directionSpec]⟩, false⟩

def paymentProcesses : Deployment :=
  ⟨[⟨"credit", [notDirection "start" "outgoing"], by decide⟩,
    ⟨"debit", [notDirection "start" "incoming"], by decide⟩], [payments], by decide⟩

def payment (direction : Value) : Context :=
  ⟨fun key => if key = "direction" then direction else .null, some "payment"⟩

theorem payments_vocabulary {pinned : Option String}
    (h : vocabulary payments.codec pinned key = some spec) : key = "direction" := by
  obtain ⟨rfl, ⟨t, -, hmem⟩ | ⟨hnone, -⟩ | ⟨union, k, -, -, hunion, hget⟩⟩ := mem_of_vocabulary h
  · rw [mem_singleton.mp hmem]
    rfl
  · cases hnone
  · have hsame : some (SortedMap.empty.insert "direction" directionSpec) = some union := hunion
    cases hsame
    obtain ⟨-, rfl⟩ | ⟨-, ⟨⟩⟩ := get_insert_cases hget
    rfl

/-- Every attribute is absent or of its declared kind and domain. -/
def Fits (specs : Specs) (attr : String → Value) : Prop :=
  ∀ key spec, specs key = some spec → attr key = .null ∨
    ∃ l : Lit, attr key = l.toValue ∧ l.matchesKind spec.kind ∧ (spec.domain ≠ [] → l ∈ spec.domain)

theorem Fits.within {specs : Specs} {attr : String → Value} (hfits : Fits specs attr) :
    Within specs attr := by
  intro key domain hclosed
  obtain ⟨spec, hspec, hdomain⟩ := Option.bind_eq_some_iff.mp hclosed
  rw [AttributeSpec.closedDomain] at hdomain
  split at hdomain
  · cases hdomain
  · rename_i hopen
    cases hdomain
    refine (hfits key spec hspec).imp_right fun h => ?_
    obtain ⟨l, hl, -, hmem⟩ := h
    exact ⟨l, hmem hopen, hl⟩

/-- An exclusion over an absent attribute is true, and no value of its domain is null. -/
theorem present_of_sound {F : Feel} {specs : Specs} {ctx : Context}
    (h : ∀ e cubes, analyse F specs e = .ok cubes → evalBoolean F ctx e = some true →
      Covers cubes ctx.attr) (key : String) : Present specs ctx.attr key := by
  intro domain hclosed hnull
  obtain ⟨x, hx, hadmits⟩ :=
    h (.compare (.path ["attr", key]) .neq (.literal (.string ""))) _ rfl (by
    rw [evalBoolean, eval, eval, eval, hnull]
    rfl)
  cases mem_singleton.mp hx
  have hcons := hadmits.keys key _ (get_insert_self ..)
  rw [narrow, hclosed] at hcons
  obtain ⟨l, -, hl⟩ := Constraint.admits_mkOneOf.mp hcons
  rw [hnull] at hl
  cases l <;> cases hl

/-- **The analysis is sound** on predicates that are carried: one of the cubes admits the message,
of two that are judged disjoint one is not carried, and one that is judged unsatisfiable is not. On
a message it is sound for every predicate that is true exactly if no attribute with a closed domain
is absent; then every predicate that is true is carried. -/
theorem analysis_sound (F : Feel) (specs : Specs) (ctx : Context) (hfits : Fits specs ctx.attr) :
    (∀ e cubes, analyse F specs e = .ok cubes → Carried F specs ctx e false →
      Covers cubes ctx.attr ∧ cubes.all Cube.isUnsat = false) ∧
    (∀ e e', predDisjoint (analyse F specs e) (analyse F specs e') = .disjoint →
      ¬(Carried F specs ctx e false ∧ Carried F specs ctx e' false)) ∧
    ((∀ e cubes, analyse F specs e = .ok cubes → evalBoolean F ctx e = some true →
      Covers cubes ctx.attr) ↔ ∀ key, Present specs ctx.attr key) ∧
    ((∀ key, Present specs ctx.attr key) → ∀ e, evalBoolean F ctx e = some true →
      Carried F specs ctx e false) := by
  have hcarried : (∀ key, Present specs ctx.attr key) → ∀ e, evalBoolean F ctx e = some true →
      Carried F specs ctx e false := fun hthere e htrue =>
    carried_of_eval hthere e (eval_of_evalBoolean htrue)
  refine ⟨fun e cubes hok h => ?_, fun e e' hdisjoint h => ?_, ⟨fun hsound => ?_, ?_⟩, hcarried⟩
  · obtain ⟨x, hx, hadmits⟩ := covers_of_carried hfits.within hok h
    refine ⟨⟨x, hx, hadmits⟩, all_eq_false.mpr ⟨x, hx, ?_⟩⟩
    rw [hadmits.isUnsat]
    exact Bool.false_ne_true
  · obtain ⟨x, y, hx, hy, hnone⟩ := exists_of_predDisjoint hdisjoint
    have hmeet := overlapWitness_isSome (covers_of_carried hfits.within hx h.1)
      (covers_of_carried hfits.within hy h.2)
    rw [hnone] at hmeet
    cases hmeet
  · exact present_of_sound hsound
  · exact fun hthere e cubes hok htrue =>
      covers_of_carried hfits.within hok (hcarried hthere e htrue)

/-- The vocabulary of one attribute, with two directions. -/
def directions : Specs := fun key => if key = "direction" then some directionSpec else none

theorem of_directions {key : String} {spec : AttributeSpec} (h : directions key = some spec) :
    key = "direction" ∧ spec = directionSpec := by
  rw [directions] at h
  split at h
  · exact ⟨‹_›, (Option.some.inj h).symm⟩
  · cases h

theorem directions_fits {direction : Value}
    (h : direction = .null ∨ direction = .string "incoming") :
    Fits directions (payment direction).attr := by
  intro key spec hspec
  obtain ⟨rfl, rfl⟩ := of_directions hspec
  exact h.imp_right fun h => ⟨.text "incoming", h, rfl, fun _ => .head _⟩

def someDirection : FeelExpr :=
  .inTest (.path ["attr", "direction"])
    (.listLit [.literal (.string "incoming"), .literal (.string "outgoing")])

/-- `attr.direction` is one of the two, or the amount is over five: a message with an amount only is
admitted by the second cube, and the direction may be absent. -/
def someDirectionOrAmount : FeelExpr :=
  .boolOp someDirection .or (.compare (.path ["attr", "amount"]) .gt (.literal (.number 5)))

def amounts : Specs := fun key =>
  if key = "amount" then some ⟨"amount", .decimal, []⟩ else directions key

def sevenOnly : Context := ⟨fun key => if key = "amount" then .number 7 else .null, none⟩

theorem incoming_is_admitted :
    (∃ cubes, analyse plainFeel directions someDirection = .ok cubes ∧
      Covers cubes (payment (.string "incoming")).attr) ∧
    ∃ cubes, analyse plainFeel amounts someDirectionOrAmount = .ok cubes ∧
      Covers cubes sevenOnly.attr := by
  constructor
  · have h := analysis_sound plainFeel directions _ (directions_fits (.inr rfl))
    refine ⟨_, rfl, (h.2.2.1.mpr fun key domain hclosed hnull => ?_) someDirection _ rfl
      (by decide)⟩
    obtain ⟨spec, hspec, -⟩ := Option.bind_eq_some_iff.mp hclosed
    obtain ⟨rfl, -⟩ := of_directions hspec
    cases hnull
  · have hfits : Fits amounts sevenOnly.attr := by
      intro key spec hspec
      by_cases hkey : key = "amount"
      · rw [amounts, if_pos hkey] at hspec
        cases hspec
        exact .inr ⟨.number 7, if_pos hkey, rfl, fun h => absurd rfl h⟩
      · exact .inl (if_neg hkey)
    have h := analysis_sound plainFeel amounts sevenOnly hfits
    refine ⟨_, rfl, (h.1 someDirectionOrAmount _ rfl ?_).1⟩
    rw [someDirectionOrAmount, Carried, if_neg (by decide)]
    refine .inr ⟨rfl, fun key hkey domain hclosed => ?_⟩
    cases hkey
    cases hclosed

/-- Of a payment without a direction the predicate that is judged unsatisfiable is true. -/
theorem unsatisfiable_is_true : Fits directions (payment .null).attr ∧
      (analyse plainFeel directions (.not someDirection)).toOption.map (·.all Cube.isUnsat) =
        some true ∧
      evalBoolean plainFeel (payment .null) (.not someDirection) = some true :=
  ⟨directions_fits (.inl rfl), by decide, by decide⟩

/-! ## A message that was not decoded

Its type selects the tier, and the predicates are evaluated on a context without attributes. What
any other path reads there is up to the evaluator: nothing as a rule, a function for the name of a
builtin. -/

/-- The start events for a message whose decode was fatal. -/
def resolveUndecoded (F : Feel) (fullMatch : String → String → Bool) (d : Deployment)
    (channel : String) (messageType : Option String) : List HandlerMatch :=
  resolveHandlers F fullMatch d channel ⟨fun _ => .null, messageType⟩

/-- The start event without its predicate. -/
def StartEvent.unfiltered (s : StartEvent) : StartEvent :=
  { s with source := s.source.map fun source => { source with filterExpression := none } }

/-- The process if no start event had a predicate. -/
def Process.unfiltered (p : Process) : Process :=
  ⟨p.id, p.startEvents.map (·.unfiltered), by
    rw [map_map]
    exact p.distinct⟩

/-- The deployment if no start event had a predicate. -/
def Deployment.unfiltered (d : Deployment) : Deployment :=
  ⟨d.processes.map (·.unfiltered), d.channels, by
    rw [map_map]
    exact d.distinct⟩

section Unfiltered

variable {F : Feel} {fullMatch : String → String → Bool} {channel : String} {ctx : Context}
  {p : Process}

/-- The start events of a tier, whatever their predicates. -/
def inTier (p : Process) (channel : String) (tier : SourceBinding → Bool) : List StartEvent :=
  (p.starts.filter fun s => channel ∈ s.channels).filter fun s => s.source.any tier

/-- The tier that a message type takes, whatever the predicates. -/
def ofType (fullMatch : String → String → Bool) (p : Process) (channel : String) :
    Option String → List StartEvent
  | none => inTier p channel catchAllTier
  | some mt =>
    if inTier p channel (exactTier mt) ≠ [] then inTier p channel (exactTier mt)
    else if inTier p channel (patternTier fullMatch mt) ≠ [] then
      inTier p channel (patternTier fullMatch mt)
    else inTier p channel catchAllTier

theorem startsOfTier_eq (tier : SourceBinding → Bool) : startsOfTier F p channel ctx tier =
    (inTier p channel tier).filter fun s => s.source.all (holds F ctx) := by
  rw [startsOfTier, inTier, filter_filter (p := fun s : StartEvent => s.source.all (holds F ctx))]
  refine filter_congr fun s _ => ?_
  cases s.source with
  | none => rfl
  | some source => exact Bool.and_comm ..

theorem inTier_unfiltered (tier : SourceBinding → Bool)
    (htier : ∀ source, tier { source with filterExpression := none } = tier source) :
    inTier p.unfiltered channel tier = (inTier p channel tier).map (·.unfiltered) := by
  have hstarts : p.unfiltered.starts = p.starts.map (·.unfiltered) :=
    (map_insertionSort (fun a b : StartEvent => a.id ≤ b.id) (fun a b : StartEvent => a.id ≤ b.id)
      StartEvent.unfiltered p.startEvents fun _ _ _ _ => .rfl).symm
  rw [inTier, inTier, hstarts, filter_filter, filter_filter, filter_map]
  refine congrArg (map _) (filter_congr fun s _ => ?_)
  obtain ⟨id, _ | source⟩ := s
  · rfl
  · simp [StartEvent.unfiltered, StartEvent.channels, htier, eq_comm (a := channel)]

theorem ofType_unfiltered (mt : Option String) :
    ofType fullMatch p.unfiltered channel mt =
      (ofType fullMatch p channel mt).map (·.unfiltered) := by
  cases mt with
  | none => exact inTier_unfiltered _ fun _ => rfl
  | some mt =>
    simp only [ofType, inTier_unfiltered (exactTier mt) fun _ => rfl,
      inTier_unfiltered (patternTier fullMatch mt) fun _ => rfl,
      inTier_unfiltered catchAllTier fun _ => rfl, ne_eq, map_eq_nil_iff, apply_ite (map _)]

/-- The message takes its tier if the predicates there are true. -/
theorem selectStartEvents_eq_ofType
    (h : ∀ s ∈ ofType fullMatch p channel ctx.messageType, s.source.all (holds F ctx)) :
    selectStartEvents F fullMatch p channel ctx = ofType fullMatch p channel ctx.messageType := by
  rw [selectStartEvents, typedStarts]
  simp only [startsOfTier_eq]
  cases hmt : ctx.messageType with
  | none =>
    rw [hmt] at h
    exact filter_eq_self.mpr h
  | some mt =>
    rw [hmt] at h
    simp only [ofType] at h ⊢
    split at h
    · rename_i hexact
      rw [filter_eq_self.mpr h, if_neg hexact, if_neg hexact, if_pos hexact]
    · rename_i hexact
      rw [not_not] at hexact
      split at h
      · rename_i hpattern
        rw [hexact, filter_nil, if_pos rfl, filter_eq_self.mpr h, if_neg hpattern, if_neg (by simp),
          if_pos hpattern]
      · rename_i hpattern
        rw [not_not] at hpattern
        rw [hexact, hpattern, filter_nil, if_pos rfl, if_pos rfl, filter_eq_self.mpr h,
          if_neg (by simp), if_neg (by simp)]

theorem source_holds_of_selected {s : StartEvent}
    (h : s ∈ selectStartEvents F fullMatch p channel ctx) :
    s ∈ p.startEvents ∧ s.source.all (holds F ctx) := by
  obtain ⟨tier, htier, -⟩ := exists_tier h
  obtain ⟨hmem, source, hsource, -, -, hholds⟩ := of_mem_startsOfTier htier
  refine ⟨hmem, ?_⟩
  rw [hsource]
  exact hholds

theorem mem_startEvents_of_ofType {s : StartEvent} {mt : Option String}
    (h : s ∈ ofType fullMatch p channel mt) : s ∈ p.startEvents := by
  have hin : ∀ {tier : SourceBinding → Bool}, s ∈ inTier p channel tier → s ∈ p.startEvents :=
    fun h => (mem_insertionSort _).mp (mem_filter.mp (mem_filter.mp h).1).1
  rw [ofType.eq_def] at h
  split at h
  · exact hin h
  · split at h
    · exact hin h
    · split at h <;> exact hin h

theorem all_holds_unfiltered (s : StartEvent) : s.unfiltered.source.all (holds F ctx) := by
  rw [StartEvent.unfiltered]
  cases s.source <;> rfl

theorem selectStartEvents_unfiltered : selectStartEvents F fullMatch p.unfiltered channel ctx =
    (ofType fullMatch p channel ctx.messageType).map (·.unfiltered) := by
  rw [← ofType_unfiltered]
  refine selectStartEvents_eq_ofType fun s hs => ?_
  rw [ofType_unfiltered] at hs
  obtain ⟨s, -, rfl⟩ := mem_map.mp hs
  exact all_holds_unfiltered s

theorem mem_resolveHandlers {d : Deployment} {p : Process} (hp : p ∈ d.processes) {id : String} :
    ⟨p.id, id⟩ ∈ resolveHandlers F fullMatch d channel ctx ↔
      ∃ s ∈ selectStartEvents F fullMatch p channel ctx, s.id = id := by
  rw [resolveHandlers, mem_insertionSort, mem_flatMap]
  constructor
  · rintro ⟨q, hq, hmem⟩
    obtain ⟨s, hs, heq⟩ := mem_map.mp hmem
    obtain ⟨hid, rfl⟩ := HandlerMatch.mk.inj heq
    cases inj_on_of_nodup_map d.distinct hq hp hid
    exact ⟨s, hs, rfl⟩
  · rintro ⟨s, hs, rfl⟩
    exact ⟨p, hp, mem_map_of_mem hs⟩

end Unfiltered

/-- **A message that was not decoded is routed by its type** exactly if, in the tier that its type
takes in each process, every predicate is true of a context without attributes. -/
theorem undecoded_routed_by_type (F : Feel) (fullMatch : String → String → Bool) (d : Deployment)
    (channel : String) (messageType : Option String) :
    resolveUndecoded F fullMatch d channel messageType =
        resolveUndecoded F fullMatch d.unfiltered channel messageType ↔
      ∀ p ∈ d.processes, ∀ s ∈ ofType fullMatch p channel messageType, ∀ source ∈ s.source,
        holds F ⟨fun _ => .null, messageType⟩ source = true := by
  constructor
  · intro h p hp s hs source hsource
    -- without predicates the start event is selected, so that it is selected with them
    have hmem : (⟨p.id, s.id⟩ : HandlerMatch) ∈
        resolveUndecoded F fullMatch d.unfiltered channel messageType := by
      have hp' : p.unfiltered ∈ d.unfiltered.processes := mem_map_of_mem hp
      refine (mem_resolveHandlers hp').mpr ⟨s.unfiltered, ?_, rfl⟩
      rw [selectStartEvents_unfiltered]
      exact mem_map_of_mem hs
    rw [← h] at hmem
    obtain ⟨s', hs', hid⟩ := (mem_resolveHandlers hp).mp hmem
    obtain ⟨hmem', hholds⟩ := source_holds_of_selected hs'
    cases inj_on_of_nodup_map p.distinct hmem' (mem_startEvents_of_ofType hs) hid
    rw [hsource] at hholds
    exact hholds
  · intro h
    rw [resolveUndecoded, resolveUndecoded, resolveHandlers, resolveHandlers, Deployment.unfiltered,
      flatMap_map]
    refine congrArg _ (flatMap_congr fun p hp => ?_)
    rw [selectStartEvents_unfiltered, selectStartEvents_eq_ofType fun s hs => ?_, map_map]
    · rfl
    · cases hsource : s.source with
      | none => rfl
      | some source => exact h p hp s hs source hsource

/-- A refund start event whose predicate is false of every payment, beside the two directions. -/
def withRefunds : Deployment :=
  ⟨⟨"refund", [⟨"start", some ⟨"payments", some "refund", none, some someDirection, .inr rfl⟩⟩],
    by decide⟩ :: paymentProcesses.processes, [payments], by decide⟩

theorem undecoded_payment_starts_both :
    resolveUndecoded plainFeel (fun _ _ => false) withRefunds "payments" (some "payment") =
      resolveUndecoded plainFeel (fun _ _ => false) withRefunds.unfiltered "payments"
        (some "payment") ∧
    resolveUndecoded plainFeel (fun _ _ => false) withRefunds "payments" (some "payment") =
      [⟨"credit", "start"⟩, ⟨"debit", "start"⟩] :=
  ⟨(undecoded_routed_by_type ..).mpr (by decide), by decide⟩

/-- A payment that was not decoded does not reach the start event for one direction. -/
theorem undecoded_payment_lost :
    let d : Deployment := ⟨[⟨"credit", [⟨"start", some ⟨"payments", none, none,
      some someDirection, .inl rfl⟩⟩], by decide⟩], [payments], by decide⟩
    resolveUndecoded plainFeel (fun _ _ => false) d "payments" (some "payment") = [] ∧
      resolveUndecoded plainFeel (fun _ _ => false) d.unfiltered "payments" (some "payment") =
        [⟨"credit", "start"⟩] := by
  decide

end Sutra.Select
