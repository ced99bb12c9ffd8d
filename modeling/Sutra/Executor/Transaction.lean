import Sutra.Executor.Run
import Sutra.Lib.Replay

/-!
# Transactions

A `<bpmn:transaction>` opens a set of store transactions, runs its scope, and commits them unless it
was cancelled or failed. An ad-hoc or an event sub-process joins the open transactions; an embedded
sub-process and a called process get none, and a nested transaction opens and commits its own.

* `Guarded`: every write below a transaction goes through it: only scopes that join it write.
* `InMode`: then an invariant of every run inside it.
-/

namespace Sutra

open Prog List Function Option SortedMap

variable {ω α : Type}

/-! ## Rows and writes -/

def rowsOf (stores : String → StoreCell) (store : String) : SortedMap String FeelValue :=
  (stores store).data

def RowWrite.update (w : RowWrite) :
    String × (SortedMap String FeelValue → SortedMap String FeelValue) :=
  (w.store, (·.insert w.key w.value))

def rowsAfter (ws : List RowWrite) (rows : String → SortedMap String FeelValue) :
    String → SortedMap String FeelValue := replay (ws.map RowWrite.update) rows

theorem rowsAfter_of_notMem {ws : List RowWrite} {store : String} (h : ∀ w ∈ ws, w.store ≠ store)
    (rows : String → SortedMap String FeelValue) : rowsAfter ws rows store = rows store := by
  refine replay_of_notMem (fun e he => ?_) rows
  obtain ⟨w, hw, rfl⟩ := mem_map.mp he
  exact h w hw

theorem rowsAfter_concat (ws : List RowWrite) (w : RowWrite)
    (rows : String → SortedMap String FeelValue) : rowsAfter (ws ++ [w]) rows
      = update (rowsAfter ws rows) w.store ((rowsAfter ws rows w.store).insert w.key w.value) := by
  rw [rowsAfter, map_append]
  exact replay_concat _ _ _

/-! ## Which scopes may write -/

/-- How the data tasks of a scope may use the stores. -/
inductive StoreMode where
  | buffered (N : String → Prop)
  /-- With no transaction open: only read. -/
  | direct

def StoreMode.idle : StoreMode := .buffered fun _ => False

def StoreMode.AllowsRead : StoreMode → StoreRead → Prop
  | .buffered N, read => read.query = none → N read.store
  | .direct, _ => True

def StoreMode.AllowsWrite : StoreMode → StoreWrite → Prop
  | .buffered N, write => N write.store
  | .direct, _ => False

def StoreMode.Allows (mode : StoreMode) (dm : DataMapping) : Prop :=
  (∀ read ∈ dm.storeReads, mode.AllowsRead read) ∧ ∀ write ∈ dm.storeWrites, mode.AllowsWrite write

def Node.joinedScope : Node → Option ProcessDefinition
  | .adHocSubProcess _ inner _ | .eventSubProcess _ inner _ => some inner
  | _ => none

def Node.activity (n : Node) : Node := n.loopBody.getD n

/-- **The data tasks of a scope and of the scopes below it keep to `mode`**: scopes that join its
transactions likewise, embedded sub-processes and called processes only read, and nested
transactions stay empty. -/
inductive Guarded (ex : TokenExecutor ω) : StoreMode → ProcessDefinition → Prop
  | intro {mode : StoreMode} {p : ProcessDefinition}
      (tasks : ∀ id dm, .dataTask id dm ∈ p.nodes → mode.Allows dm)
      (joined : ∀ n ∈ p.nodes, ∀ q, n.joinedScope = some q → Guarded ex mode q)
      (embedded : ∀ n ∈ p.nodes, ∀ id q, n.activity = .subProcess id q → Guarded ex .direct q)
      (nested : ∀ id q, .transactionSubProcess id q ∈ p.nodes → Guarded ex .idle q)
      (called : ∀ n ∈ p.nodes, ∀ id element, n.activity = .callActivity id element →
        ∀ vars selected st q d,
          ex.chooseCalledElement id element (p.bindingsFor id).dispatch p.id vars
            = .ok (some selected) →
          ex.resolveSubProcess id selected st = .ok (q, d) → Guarded ex .direct q) :
      Guarded ex mode p

namespace Guarded

variable {ex : TokenExecutor ω} {mode : StoreMode} {p : ProcessDefinition} {id : String} {n : Node}

variable (h : Guarded ex mode p)

include h

theorem tasks {dm : DataMapping} (hn : .dataTask id dm ∈ p.nodes) : mode.Allows dm := by
  obtain ⟨tasks, -, -, -, -⟩ := h
  exact tasks _ _ hn

variable {q : ProcessDefinition}

theorem joined (hn : n ∈ p.nodes) (hq : n.joinedScope = some q) : Guarded ex mode q := by
  obtain ⟨-, joined, -, -, -⟩ := h
  exact joined n hn q hq

theorem embedded
    (hn : n ∈ p.nodes) (hq : n.activity = .subProcess id q) : Guarded ex .direct q := by
  obtain ⟨-, -, embedded, -, -⟩ := h
  exact embedded n hn id q hq

theorem nested (hn : .transactionSubProcess id q ∈ p.nodes) : Guarded ex .idle q := by
  obtain ⟨-, -, -, nested, -⟩ := h
  exact nested id q hn

theorem called {element selected : String}
    {vars : Variables} {st : ExecutionState} {d : DeploymentId}
    (hn : n ∈ p.nodes) (hcall : n.activity = .callActivity id element)
    (hchoose : ex.chooseCalledElement id element (p.bindingsFor id).dispatch p.id vars
      = .ok (some selected))
    (hresolve : ex.resolveSubProcess id selected st = .ok (q, d)) : Guarded ex .direct q := by
  obtain ⟨-, -, -, -, called⟩ := h
  exact called n hn id element hcall vars selected st q d hchoose hresolve

end Guarded

/-! ## The invariant of a scope -/

def TokenExecutor.Resolves (ex : TokenExecutor ω) (d : DeploymentId) (name store : String) : Prop :=
  ∃ registry, ex.dataStores = some registry ∧ registry d name = some store

def TokenExecutor.StoresApart (ex : TokenExecutor ω) : Prop :=
  ∀ d name name' store, ex.Resolves d name store → ex.Resolves d name' store → name = name'

structure Buffers (ex : TokenExecutor ω) (N : String → Prop) (d : DeploymentId)
    (rows : String → SortedMap String FeelValue) (ws : List RowWrite)
    (txs : SortedMap String StoreTx) : Prop where
  named : ∀ name tx, txs.get name = some tx → N name
  resolved : ∀ name tx, txs.get name = some tx → ex.Resolves d name tx.store
  pending : ∀ name tx, txs.get name = some tx → tx.pending = rowsAfter ws rows tx.store
  written : ∀ w ∈ ws, ∃ name tx, txs.get name = some tx ∧ tx.store = w.store

namespace Buffers

variable {ex : TokenExecutor ω} {N : String → Prop} {d : DeploymentId}
  {rows : String → SortedMap String FeelValue} {ws : List RowWrite} {txs : SortedMap String StoreTx}

theorem empty : Buffers ex N d rows [] .empty where
  named _ _ h := nomatch h
  resolved _ _ h := nomatch h
  pending _ _ h := nomatch h
  written _ h := nomatch h

theorem opens (h : Buffers ex N d rows ws txs) (hapart : ex.StoresApart) {name store : String}
    (hN : N name) (hres : ex.Resolves d name store) (hnew : txs.get name = none) :
    Buffers ex N d rows ws (txs.insert name ⟨store, rows store⟩) where
  named := forall_insert h.named hN
  resolved := forall_insert h.resolved hres
  pending := by
    refine forall_insert h.pending (rowsAfter_of_notMem (fun w hw heq => ?_) rows).symm
    -- a store written already is open under a name of its own
    obtain ⟨other, tx, htx, hstore⟩ := h.written w hw
    have hother := h.resolved _ _ htx
    rw [hstore, heq] at hother
    rw [hapart d other name store hother hres, hnew] at htx
    cases htx
  written w hw := by
    obtain ⟨other, tx, htx, hstore⟩ := h.written w hw
    refine ⟨other, tx, ?_, hstore⟩
    rw [get_insert_of_ne _ _ ?_]
    · exact htx
    · rintro rfl
      rw [hnew] at htx
      cases htx

theorem puts (h : Buffers ex N d rows ws txs) (hapart : ex.StoresApart) {name : String}
    {tx : StoreTx} (htx : txs.get name = some tx) (key : String) (value : FeelValue) :
    Buffers ex N d rows (ws ++ [⟨tx.store, key, value⟩])
      (txs.insert name { tx with pending := tx.pending.insert key value }) where
  named := forall_insert h.named (h.named _ _ htx)
  resolved := forall_insert h.resolved (show ex.Resolves d name tx.store from h.resolved _ _ htx)
  pending name' tx' htx' := by
    rw [rowsAfter_concat]
    obtain ⟨-, rfl⟩ | ⟨hne, htx'⟩ := get_insert_cases htx'
    · rw [update_self, h.pending _ _ htx]
    · rw [update_of_ne, h.pending _ _ htx']
      intro heq
      have hres := h.resolved _ _ htx'
      rw [heq] at hres
      exact hne (hapart d _ _ _ hres (h.resolved _ _ htx))
  written w hw := by
    by_cases hstore : w.store = tx.store
    · exact ⟨name, _, get_insert_self _ _ _, hstore.symm⟩
    · have hw : w ∈ ws := by
        rcases mem_append.mp hw with hw | hw
        · exact hw
        · rw [mem_singleton.mp hw] at hstore
          exact absurd rfl hstore
      obtain ⟨other, tx', htx', hother⟩ := h.written w hw
      refine ⟨other, tx', ?_, hother⟩
      rw [get_insert_of_ne _ _ ?_]
      · exact htx'
      · rintro rfl
        rw [htx] at htx'
        cases htx'
        exact hstore hother.symm

end Buffers

namespace StoreMode

def Opened (ex : TokenExecutor ω) (d : DeploymentId) (rows : String → SortedMap String FeelValue)
    (ws : List RowWrite) (open' : Option (SortedMap String StoreTx)) : StoreMode → Prop
  | .buffered N => ∃ txs, open' = some txs ∧ Buffers ex N d rows ws txs
  | .direct => open' = none ∧ ws = []

structure Holds (ex : TokenExecutor ω) (mode : StoreMode) (d : DeploymentId)
    (stores : String → StoreCell) (writes : List RowWrite) (v : StoreView) : Prop where
  deployment : v.deployment = d
  stores_eq : v.stores = stores
  opened : ∃ ws, v.writes = writes ++ ws ∧ mode.Opened ex d (rowsOf stores) ws v.storeTx

/-- Whatever held goes on holding. -/
def Keeps (ex : TokenExecutor ω) (mode : StoreMode) (v v' : StoreView) : Prop :=
  ∀ d stores writes, mode.Holds ex d stores writes v → mode.Holds ex d stores writes v'

instance (ex : TokenExecutor ω) (mode : StoreMode) : IsPreorder StoreView (mode.Keeps ex) where
  refl _ _ _ _ h := h
  trans _ _ _ h h' d stores writes hv := h' d stores writes (h d stores writes hv)

end StoreMode

/-- **The invariant of a scope over `p`** that runs in `mode` since the stores were `stores` and the
writes `writes`. -/
def InMode (ex : TokenExecutor ω) (mode : StoreMode) (p : ProcessDefinition) (d : DeploymentId)
    (stores : String → StoreCell) (writes : List RowWrite) (m : Machine ω) : Prop :=
  m.st.process = p ∧ mode.Holds ex d stores writes m.storeView

section inMode

variable {ex : TokenExecutor ω} {mode : StoreMode} {p : ProcessDefinition} {d : DeploymentId}
  {stores : String → StoreCell} {writes : List RowWrite} {m m' : Machine ω}

theorem Quiet.storeView_eq (h : Quiet m m') : m'.storeView = m.storeView := by
  rw [Machine.storeView, h.1, h.2.1, h.2.2]
  rfl

theorem InMode.quiet (h : InMode ex mode p d stores writes m) (hq : Quiet m m') :
    InMode ex mode p d stores writes m' := by
  refine ⟨hq.1 ▸ h.1, ?_⟩
  rw [hq.storeView_eq]
  exact h.2

variable {x : Exec ω α}

theorem inMode_quiet (h : Silent x) : Maintains (InMode ex mode p d stores writes) x :=
  maintains_of_within h fun _ _ hm hq => hm.quiet hq

theorem inMode_modifyState {f : ExecutionState → ExecutionState}
    (h : ∀ s, (f s).process = s.process ∧ (f s).deployment = s.deployment ∧
      (f s).storeTx = s.storeTx) :
    Maintains (InMode ex mode p d stores writes) (Exec.modifyState f : Exec ω Unit) :=
  triple_modify fun m hm => by
    obtain ⟨hp, hd, htx⟩ := h m.st
    refine ⟨hp.trans hm.1, ?_⟩
    have hview : (Machine.mk m.world (f m.st)).storeView = m.storeView := by
      rw [Machine.storeView, hd, htx]
      rfl
    rw [hview]
    exact hm.2

theorem inMode_of_touches {T : Bool → List String} {C : String → Prop}
    (h : ∀ b F, Within (Touches p b F (T b) C (mode.Keeps ex)) x) :
    Maintains (InMode ex mode p d stores writes) x :=
  maintains_of_run fun m hm => by
    obtain ⟨heff, hkeep⟩ := h m.st.retryParkable m.st.firedTimer m ⟨hm.1, rfl, .inr rfl⟩
    exact ⟨heff.process_eq.trans hm.1, hkeep d stores writes hm.2⟩

theorem views_of_inMode (h : ∀ d stores writes, Maintains (InMode ex mode p d stores writes) x) :
    Within (Views p (mode.Keeps ex)) x := fun _ hp d stores writes hv =>
  ((h d stores writes).run ⟨hp, hv⟩).2

def HasTx (name : String) (tx : Option StoreTx) (s : ExecutionState) : Prop :=
  ∃ txs, s.storeTx = some txs ∧ txs.get name = tx

/-- A predicate that reads the state of the scope only stays along programs that leave it alone. -/
theorem inMode_quiet_and {P : ExecutionState → Prop} (h : Silent x) :
    Maintains (fun m => InMode ex mode p d stores writes m ∧ P m.st) x :=
  maintains_of_within h fun _ _ hm hq => ⟨hm.1.quiet hq, hq.1 ▸ hm.2⟩

end inMode

namespace TokenExecutor

open Exec

section stores

variable (ex : TokenExecutor ω) {mode : StoreMode} {N : String → Prop} {p : ProcessDefinition}
  {d : DeploymentId} {stores : String → StoreCell} {writes : List RowWrite}

/-! ## Data tasks -/

variable {m : Machine ω} {P : ExecutionState → Prop} {read : StoreRead} {write : StoreWrite}
  {body : Exec ω α} {sub : ExecutionState}

theorem resolveStore_resolves (name id : String) {m' : Machine ω} {store : String}
    (h : ex.resolveStore name id m = (.ok store, m')) : ex.Resolves m.st.deployment name store := by
  rw [resolveStore] at h
  obtain ⟨st, m₀, hst, h⟩ := bind_eq_ok h
  cases hst
  cases hreg : ex.dataStores with
  | none =>
    rw [hreg] at h
    cases (Prod.mk.inj h).1
  | some registry =>
    simp only [hreg] at h
    cases hname : registry m.st.deployment name with
    | none =>
      simp only [hname] at h
      cases (Prod.mk.inj h).1
    | some found =>
      simp only [hname] at h
      cases (Prod.mk.inj h).1
      exact ⟨registry, hreg, hname⟩

theorem InMode.buffers (h : InMode ex (.buffered N) p d stores writes m) :
    ∃ ws txs, m.world.writes = writes ++ ws ∧ m.st.storeTx = some txs ∧
      Buffers ex N d (rowsOf stores) ws txs := by
  obtain ⟨ws, hws, txs, htx, hbuf⟩ := h.2.opened
  exact ⟨ws, txs, hws, htx, hbuf⟩

theorem inMode_resolveStore (name id : String) :
    Triple (fun m => InMode ex mode p d stores writes m ∧ P m.st) (ex.resolveStore name id)
      (fun store m => (InMode ex mode p d stores writes m ∧ P m.st) ∧ ex.Resolves d name store)
      (InMode ex mode p d stores writes) := fun m hm => by
  obtain ⟨hok, herr⟩ := inMode_quiet_and (P := P) (ex.quiet_resolveStore name id) m hm
  refine ⟨fun store t hr => ⟨hok store t hr, ?_⟩, fun e t hr => (herr e t hr).1⟩
  have hstore := ex.resolveStore_resolves name id hr
  have hd : m.st.deployment = d := hm.1.2.deployment
  rwa [hd] at hstore

theorem inMode_storeCall (op : StoreOp) (store : String) (failed : String → Signal) :
    Triple (fun m => InMode ex mode p d stores writes m ∧ P m.st) (ex.storeCall op store failed)
      (fun _ m => InMode ex mode p d stores writes m ∧ P m.st)
      (InMode ex mode p d stores writes) := fun m hm => by
  obtain ⟨hok, herr⟩ := inMode_quiet_and (P := P) (ex.quiet_storeCall op store failed) m hm
  exact ⟨hok, fun e t hr => (herr e t hr).1⟩

section apart

variable (hapart : ex.StoresApart)
include hapart

theorem inMode_txFor {name : String} (hN : N name) (id : String) :
    Triple (InMode ex (.buffered N) p d stores writes) (ex.txFor name id)
      (fun tx m => InMode ex (.buffered N) p d stores writes m ∧ HasTx name (some tx) m.st)
      (InMode ex (.buffered N) p d stores writes) := by
  rw [txFor]
  refine triple_gets_bind fun m hm => ?_
  obtain ⟨ws, txs, hws, htxs, hbuf⟩ := InMode.buffers ex hm
  rw [htxs, getD_some]
  split
  · rename_i tx hget
    refine triple_pure ?_
    rintro _ rfl
    exact ⟨hm, txs, htxs, hget⟩
  · rename_i hget
    refine Triple.weaken ?_ (P := fun t => InMode ex (.buffered N) p d stores writes t ∧
      HasTx name none t.st) (by rintro _ rfl; exact ⟨hm, txs, htxs, hget⟩)
    refine Triple.bind (ex.inMode_resolveStore name id) fun store => triple_of_fact fun hres => ?_
    refine Triple.bind (ex.inMode_storeCall _ _ _) fun _ => ?_
    split
    · refine triple_gets_bind fun m hm => ?_
      obtain ⟨hm, txs, htxs, hget⟩ := hm
      refine Triple.bind (Q := fun _ t => InMode ex (.buffered N) p d stores writes t ∧
        HasTx name (some ⟨store, (m.world.stores store).data⟩) t.st) (triple_modify ?_) fun _ =>
          triple_pure fun _ ht => ht
      rintro _ rfl
      obtain ⟨ws, txs', hws, htxs', hbuf⟩ := InMode.buffers ex hm
      cases htxs.symm.trans htxs'
      have hrows : (m.world.stores store).data = rowsOf stores store := by
        have hst : m.world.stores = stores := hm.2.stores_eq
        rw [hst]
        rfl
      refine ⟨⟨hm.1, hm.2.deployment, hm.2.stores_eq, ws, hws, txs.insert name _, ?_,
        hrows ▸ hbuf.opens hapart hN hres hget⟩, txs.insert name _, ?_, get_insert_self _ _ _⟩
      · simp [Machine.storeView, htxs]
      · simp [htxs]
    · exact triple_throw fun _ ht => ht.1

theorem inMode_readRow (id : String) (hread : mode.AllowsRead read)
    (hquery : read.query = none) (key : String) :
    Maintains (InMode ex mode p d stores writes) (ex.readRow id read key) := by
  rw [readRow]
  refine triple_gets_keep fun m hm => ?_
  split
  · rename_i hopen
    cases mode with
    | buffered N =>
      refine .bind (ex.inMode_txFor hapart (hread hquery) id) fun tx => ?_
      refine .weaken ?_ fun _ h => h.1
      exact .bind (inMode_quiet (ex.quiet_storeCall _ _ _)) fun _ =>
        .bind (inMode_quiet (quiet_storeCell _)) fun _ => triple_pure fun _ h => h
    | direct =>
      obtain ⟨_, -, htx, -⟩ := hm.2.opened
      have hnone : m.st.storeTx = none := htx
      rw [hnone] at hopen
      cases hopen
  · exact .bind (inMode_quiet (ex.quiet_resolveStore _ _)) fun _ =>
      .bind (inMode_quiet (ex.quiet_storeCall _ _ _)) fun _ =>
        .bind (inMode_quiet (quiet_storeCell _)) fun _ => triple_pure fun _ h => h

theorem inMode_runStoreRead (id : String) (hread : mode.AllowsRead read) :
    Maintains (InMode ex mode p d stores writes) (ex.runStoreRead id read) := by
  rw [runStoreRead]
  refine .bind (inMode_quiet .vars) fun vars => ?_
  split
  · exact .bind (inMode_quiet (ex.quiet_runStoreQuery _ _ _ _)) fun _ => inMode_quiet (.setVar _ _)
  · rename_i hquery
    exact .bind (inMode_quiet (.liftEval _)) fun _ => .bind (inMode_quiet (.ofExcept _)) fun _ =>
        .bind (ex.inMode_readRow hapart id hread hquery _) fun _ =>
          .bind (inMode_modifyState fun _ => ⟨rfl, rfl, rfl⟩) fun _ => inMode_quiet (.setVar _ _)

theorem inMode_put (name key : String) (tx : StoreTx) (value : FeelValue) :
    Triple (fun m => InMode ex (.buffered N) p d stores writes m ∧ HasTx name (some tx) m.st)
      (do
        putTx name tx (tx.pending.insert key value)
        recordWrite tx.store key value : Exec ω Unit)
      (fun _ => InMode ex (.buffered N) p d stores writes)
      (InMode ex (.buffered N) p d stores writes) := by
  refine triple_of_run fun m hm => ⟨fun _ _ => ?_, nofun⟩
  obtain ⟨hm, txs, htxs, hget⟩ := hm
  obtain ⟨ws, txs', hws, htxs', hbuf⟩ := InMode.buffers ex hm
  cases htxs.symm.trans htxs'
  have hopen : m.st.storeTx.map (·.insert name { tx with pending := tx.pending.insert key value })
      = some (txs.insert name { tx with pending := tx.pending.insert key value }) := by
    rw [htxs]
    rfl
  have hwrites : m.world.writes ++ [⟨tx.store, key, value⟩]
      = writes ++ (ws ++ [⟨tx.store, key, value⟩]) := by
    rw [hws, append_assoc]
  exact ⟨hm.1, hm.2.deployment, hm.2.stores_eq, _, hwrites, _, hopen, hbuf.puts hapart hget _ _⟩

theorem inMode_writeRowTx (id : String) (hN : N write.store) (key : String) (value : FeelValue) :
    Maintains (InMode ex (.buffered N) p d stores writes) (ex.writeRowTx id write key value) := by
  rw [writeRowTx]
  refine .bind (ex.inMode_txFor hapart hN id) fun tx =>
    .bind (ex.inMode_storeCall _ _ _) fun _ => triple_gets_keep fun _ _ =>
      triple_gets_keep fun _ _ => ?_
  refine .bind (ex.inMode_storeCall _ _ _) fun _ => ?_
  split
  · dsimp only
    split
    · exact ex.inMode_put hapart _ _ _ _
    · exact triple_throw fun _ h => h.1
  · exact ex.inMode_put hapart _ _ _ _

theorem inMode_runStoreWrite (id : String) (hwrite : mode.AllowsWrite write) :
    Maintains (InMode ex mode p d stores writes) (ex.runStoreWrite id write) := by
  cases mode with
  | buffered N =>
    rw [runStoreWrite]
    refine Triple.bind (inMode_quiet .vars) fun _ =>
      Triple.bind (inMode_quiet (.liftEval _)) fun _ =>
        Triple.bind (inMode_quiet (.ofExcept _)) fun _ => triple_gets_keep fun m hm => ?_
    obtain ⟨_, _, -, htxs, -⟩ := InMode.buffers ex hm
    rw [htxs, isSome_some, if_pos rfl]
    exact ex.inMode_writeRowTx hapart id hwrite _ _
  | direct => exact hwrite.elim

/-- **A data task keeps the stores as they are**, and its writes in the open transactions. -/
theorem inMode_runDataTask (id : String) {dm : DataMapping} (h : mode.Allows dm) :
    Maintains (InMode ex mode p d stores writes) (ex.runDataTask id dm) :=
  .bind (triple_forEach fun read hread => ex.inMode_runStoreRead hapart id (h.1 read hread))
    fun _ => .bind (triple_forEach fun _ _ => inMode_quiet (ex.quiet_runMessageDecode _ _))
      fun _ => .bind (triple_forEach fun _ _ => inMode_quiet (ex.quiet_runAssignment _))
        fun _ => triple_forEach fun write hwrite =>
          ex.inMode_runStoreWrite hapart id (h.2 write hwrite)

end apart

/-! ## Scopes -/

variable (r : Nested ω)

def KeepsModes : Prop :=
  ∀ mode q kind d stores writes, Guarded ex mode q →
    Maintains (InMode ex mode q d stores writes) (r.drain kind)

variable {ex r} (hr : ex.KeepsModes r) {q : ProcessDefinition}

include hr

theorem inMode_runScope (hq : Guarded ex mode q) (kind : ScopeKind) :
    Maintains (InMode ex mode q d stores writes) (runScope r q kind) :=
  .bind (inMode_quiet (.liftLookup _)) fun _ =>
    .bind (inMode_modifyState fun _ => ⟨rfl, rfl, rfl⟩) fun _ => hr mode q kind d stores writes hq

omit hr in
theorem inMode_inScope (h : ∀ w, (body ⟨w, sub⟩).2.world.stores = w.stores ∧
      (body ⟨w, sub⟩).2.world.writes = w.writes) :
    Maintains (InMode ex mode p d stores writes) (inScope sub body) :=
  maintains_of_run fun m hm => hm.quiet ⟨rfl, h m.world⟩

theorem inMode_ownScope (hq : Guarded ex .direct q)
    (hp : sub.process = q) (htx : sub.storeTx = none) (kind : ScopeKind) :
    Maintains (InMode ex mode p d stores writes) (inScope sub (runScope r q kind)) :=
  inMode_inScope fun w => by
    have hsub : InMode ex .direct q sub.deployment w.stores w.writes ⟨w, sub⟩ :=
      ⟨hp, rfl, rfl, [], (append_nil _).symm, htx, rfl⟩
    obtain ⟨-, -, hstores, ws, hws, -, rfl⟩ := (inMode_runScope hr hq kind).run hsub
    rw [append_nil] at hws
    exact ⟨hstores, hws⟩

omit hr in
theorem inMode_visitAll (nodeIds : List String) :
    Maintains (InMode ex mode p d stores writes) (modifyState (·.visitAll nodeIds)) :=
  inMode_of_touches (T := fun _ => []) (C := fun _ => True) fun _ _ => touches_visitAll nodeIds

theorem inMode_runEmbeddedSubProcess (hq : Guarded ex .direct q) (spId : String) :
    Maintains (InMode ex mode p d stores writes) (runEmbeddedSubProcess r spId q) := by
  rw [runEmbeddedSubProcess]
  exact triple_gets_keep fun m hm => .bind (inMode_ownScope hr hq rfl rfl _) fun _ =>
    .bind (inMode_visitAll _) fun _ =>
      .bind (inMode_quiet (.ofExcept _)) fun _ => triple_pure fun _ h => h

theorem inMode_runSubProcessInline (hq : Guarded ex .direct q) (deployment : DeploymentId) :
    Maintains (InMode ex mode p d stores writes) (runSubProcessInline r q deployment) := by
  rw [runSubProcessInline]
  exact triple_gets_keep fun m hm => .bind (inMode_ownScope hr hq rfl rfl _) fun _ =>
    .bind (inMode_quiet (.ofExcept _)) fun _ => triple_pure fun _ h => h

theorem inMode_runCallActivity {mode' : StoreMode} (hp : Guarded ex mode' p) {n : Node}
    (hn : n ∈ p.nodes) {id element : String} (hcall : n.activity = .callActivity id element) :
    Maintains (InMode ex mode p d stores writes) (ex.runCallActivity r id element) := by
  rw [runCallActivity]
  refine triple_gets_keep fun m hm => .bind (inMode_quiet .vars) fun vars =>
    triple_ofExcept_bind (fun _ h => h) fun chosen hchoose => ?_
  rw [hm.1] at hchoose
  cases chosen with
  | none => exact inMode_quiet (.notify _)
  | some selected =>
    refine triple_ofExcept_bind (fun _ h => h) fun target hresolve => ?_
    exact inMode_runSubProcessInline hr (hp.called hn hcall hchoose hresolve) target.2

omit hr in
theorem inMode_joinedScope (hm : InMode ex mode p d stores writes m)
    (hbody : Maintains (InMode ex mode q d stores writes) body) :
    Triple (fun t => m = t) (inScope { m.st.child q with storeTx := m.st.storeTx } body)
      (fun out t => t.st.process = p ∧ mode.Holds ex d stores writes
        ⟨t.st.deployment, out.2.storeTx, t.world.stores, t.world.writes⟩)
      (InMode ex mode p d stores writes) := by
  rintro _ rfl
  refine ⟨fun out t hr => ?_, fun _ _ hr => nomatch (Prod.mk.inj hr).1⟩
  have hsub : InMode ex mode q d stores writes
      ⟨m.world, { m.st.child q with storeTx := m.st.storeTx }⟩ := ⟨rfl, hm.2⟩
  obtain ⟨-, -, hstores, hopen⟩ := hbody.run hsub
  obtain ⟨hout, ht⟩ := Prod.mk.inj hr
  cases hout
  cases ht
  exact ⟨hm.1, hm.2.deployment, hstores, hopen⟩

omit hr in
theorem inMode_handBack (final : ExecutionState) :
    Triple (fun t => t.st.process = p ∧ mode.Holds ex d stores writes
        ⟨t.st.deployment, final.storeTx, t.world.stores, t.world.writes⟩)
      (modifyState fun s => { s with storeTx := final.storeTx } : Exec ω Unit)
      (fun _ => InMode ex mode p d stores writes) (InMode ex mode p d stores writes) :=
  triple_modify fun _ h => h

theorem inMode_runEventSubProcess (hq : Guarded ex mode q) (espId : String) :
    Maintains (InMode ex mode p d stores writes) (runEventSubProcess r espId q) := by
  rw [runEventSubProcess]
  refine triple_gets_bind fun m hm => ?_
  refine .bind (inMode_joinedScope hm (inMode_runScope hr hq _)) fun out =>
    .bind (inMode_handBack out.2) fun _ => .bind (inMode_visitAll _) fun _ =>
      .bind (inMode_quiet (.ofExcept _)) fun _ => ?_
  split
  · exact inMode_modifyState fun _ => ⟨rfl, rfl, rfl⟩
  · exact triple_pure fun _ h => h

theorem inMode_runAdHocActivity (hapart : ex.StoresApart) (hq : Guarded ex mode q) {n : Node}
    (hn : n ∈ q.nodes) {activity : Exec ω Unit} (h : ex.runAdHocActivity r n = some activity) :
    Maintains (InMode ex mode q d stores writes) activity := by
  have complete : ∀ id, Maintains (InMode ex mode q d stores writes)
      (modifyState (·.pushCompleted id) : Exec ω Unit) := fun id =>
    inMode_modifyState fun _ => ⟨rfl, rfl, rfl⟩
  cases n <;> cases h
  case serviceTask id implementation dm params =>
    exact .bind (inMode_of_touches (T := fun _ => []) (C := fun _ => True) fun _ _ =>
        ex.touches_runServiceTask _ _ _ (by simp) (by simp) fun _ => trivial) fun _ =>
      .bind (complete _) fun _ => .bind (inMode_quiet (ex.calm_emitReplyIfBound _).silent) fun _ =>
          inMode_quiet (ex.calm_emitSendIfBound _ _).silent
  case dataTask id dm =>
    exact .bind (ex.inMode_runDataTask hapart id (hq.tasks hn)) fun _ =>
      .bind (complete _) fun _ => inMode_quiet (ex.calm_emitReplyIfBound _).silent
  case scriptTask =>
    exact .bind (inMode_quiet (ex.quiet_runScriptTask _ _)) fun _ => complete _
  case businessRuleTask =>
    exact .bind (inMode_quiet (ex.quiet_runBusinessRuleTask _ _)) fun _ => complete _
  case sendTask =>
    exact .bind (complete _) fun _ => inMode_quiet (ex.calm_emitSendIfBound _ _).silent
  case manualTask => exact complete _
  case callActivity =>
    exact .bind (inMode_runCallActivity hr hq hn rfl) fun _ => complete _

theorem inMode_runAdHocActivities (hapart : ex.StoresApart) (hq : Guarded ex mode q)
    (cond : Option String) {nodes : List Node} (hnodes : ∀ n ∈ nodes, n ∈ q.nodes) :
    Maintains (InMode ex mode q d stores writes) (ex.runAdHocActivities r cond nodes) := by
  induction nodes with
  | nil => exact triple_pure fun _ h => h
  | cons n rest ih =>
    have ih := ih fun n' hn' => hnodes n' (.tail _ hn')
    unfold runAdHocActivities
    split
    · exact ih
    · rename_i activity hactivity
      refine .bind (inMode_runAdHocActivity hr hapart hq (hnodes n (.head _)) hactivity) fun _ => ?_
      split
      · exact ih
      · refine .bind (inMode_quiet .vars) fun _ => ?_
        split
        · exact triple_pure fun _ h => h
        · exact ih
        · exact inMode_quiet (.fail _)

theorem inMode_runAdHocSubProcess (hapart : ex.StoresApart) (hq : Guarded ex mode q)
    (cond : Option String) :
    Maintains (InMode ex mode p d stores writes) (ex.runAdHocSubProcess r q cond) := by
  rw [runAdHocSubProcess]
  refine triple_gets_bind fun m hm => ?_
  exact .bind (inMode_joinedScope hm (inMode_runAdHocActivities hr hapart hq cond
    fun _ hn => hn)) fun out => .bind (inMode_handBack out.2) fun _ =>
      .bind (inMode_visitAll _) fun _ => inMode_quiet (.ofExcept _)

end stores

/-! ## The end of a transaction -/

section commit

variable (ex : TokenExecutor ω)

def copies (txs : List (String × StoreTx)) : List (String × SortedMap String FeelValue) :=
  txs.map fun e => (e.2.store, e.2.pending)

theorem raises_commitAll (txs : List (String × StoreTx)) (firstError : Option String) :
    Raises (fun _ => False) (ex.commitAll txs firstError) := by
  induction txs generalizing firstError with
  | nil => exact .pure _
  | cons e rest ih =>
    unfold commitAll
    refine .bind (raises_update _) fun fault => ?_
    cases fault with
    | some err => exact ih _
    | none => exact .modify fun _ => ih _

theorem commitAll_cons (name : String) (tx : StoreTx) (rest : List (String × StoreTx))
    (firstError : Option String) (m : Machine ω) :
    ex.commitAll ((name, tx) :: rest) firstError m
      = match (ex.storeFault .commit tx.store m.world.env).1 with
        | some err => ex.commitAll rest
            (firstError.or (some s!"commit of store '{name}' failed: {err}"))
            { m with world := { m.world with
                env := (ex.storeFault .commit tx.store m.world.env).2 } }
        | none => (writeStore tx.store tx.pending >>= fun _ => ex.commitAll rest firstError)
            { m with world := { m.world with
                env := (ex.storeFault .commit tx.store m.world.env).2 } } := by
  conv_lhs => unfold commitAll
  rw [bind_run]
  change (match (ex.storeFault .commit tx.store m.world.env).1 with
    | some err => _
    | none => _ : Exec ω (Option String)) _ = _
  cases (ex.storeFault .commit tx.store m.world.env).1 <;> rfl

variable {m m' : Machine ω} {txs : List (String × StoreTx)}

theorem commitAll_published {firstError : Option String}
    (h : ex.commitAll txs firstError m = (.ok none, m')) :
    firstError = none ∧ rowsOf m'.world.stores = publish (copies txs) (rowsOf m.world.stores) ∧
      m'.world.writes = m.world.writes := by
  induction txs generalizing firstError m with
  | nil =>
    obtain ⟨hnone, rfl⟩ := Prod.mk.inj h
    exact ⟨Except.ok.inj hnone, rfl, rfl⟩
  | cons e rest ih =>
    obtain ⟨name, tx⟩ := e
    rw [commitAll_cons] at h
    split at h
    · obtain ⟨hor, -⟩ := ih h
      rw [or_eq_none_iff] at hor
      cases hor.2
    · obtain ⟨hfirst, hrows, hwrites⟩ := ih h
      refine ⟨hfirst, hrows.trans ?_, hwrites⟩
      have hput : rowsOf (update m.world.stores tx.store
          ⟨tx.pending, (m.world.stores tx.store).rev + 1⟩)
          = update (rowsOf m.world.stores) tx.store tx.pending := by
        funext store
        rw [rowsOf, update_apply, update_apply]
        split <;> rfl
      exact congrArg (publish (copies rest)) hput

theorem commitAll_of_noFault (hfault : ∀ store env, (ex.storeFault .commit store env).1 = none)
    (txs : List (String × StoreTx)) (m : Machine ω) : (ex.commitAll txs none m).1 = .ok none := by
  induction txs generalizing m with
  | nil => rfl
  | cons e rest ih =>
    obtain ⟨name, tx⟩ := e
    rw [commitAll_cons, hfault]
    exact ih _

theorem commitAll_refused (hone : txs.length ≤ 1) {err : String}
    (h : ex.commitAll txs none m = (.ok (some err), m')) :
    m'.world.stores = m.world.stores ∧ m'.world.writes = m.world.writes := by
  match txs with
  | [] => cases (Prod.mk.inj h).1
  | [(name, tx)] =>
    rw [commitAll_cons] at h
    split at h
    · obtain ⟨-, rfl⟩ := Prod.mk.inj h
      exact ⟨rfl, rfl⟩
    · cases (Prod.mk.inj h).1

theorem commitStoreTx_run {txs : SortedMap String StoreTx} (h : m.st.storeTx = some txs) :
    ex.commitStoreTx m = ex.commitAll txs.entries none
      { m with st := { m.st with storeTx := none } } := by
  have htake : takeStoreTx m
      = (.ok (some txs), { m with st := { m.st with storeTx := none } }) := by
    rw [← h]
    rfl
  rw [commitStoreTx, bind_run_ok htake]

/-- Rolling back cannot fail and leaves the stores alone. -/
theorem rollbackStoreTx_keeps {P : (String → StoreCell) → List RowWrite → Prop} :
    Triple (fun m => P m.world.stores m.world.writes) ex.rollbackStoreTx
      (fun _ m => P m.world.stores m.world.writes) (fun _ => False) := by
  rw [rollbackStoreTx]
  refine .bind (Q := fun _ m => P m.world.stores m.world.writes)
    (triple_update fun _ h => h) fun txs => ?_
  split
  · exact triple_pure fun _ h => h
  · exact triple_forEach fun e _ => .bind (Q := fun _ m => P m.world.stores m.world.writes)
      (triple_update fun _ h => h) fun _ => triple_pure fun _ h => h

end commit

/-! ## A transaction -/

section transaction

variable {ex : TokenExecutor ω} {r : Nested ω} (hr : ex.KeepsModes r) {N : String → Prop}
  {p q : ProcessDefinition} {d : DeploymentId} {stores : String → StoreCell}
  {writes : List RowWrite} {L D : (String → StoreCell) → List RowWrite → Prop}

omit hr in
theorem inScope_run {sub : ExecutionState} {body : Exec ω α} {m t : Machine ω}
    {out : Except Signal α} (h : body ⟨m.world, sub⟩ = (out, t)) :
    inScope sub body m = (.ok (out, t.st), ⟨t.world, m.st⟩) := by rw [inScope, h]

omit hr in
def transactionScope (ex : TokenExecutor ω) (r : Nested ω) (tspId : String)
    (q : ProcessDefinition) : Exec ω Bool := do
  let outcome ← Prog.attempt (ex.transactionBody r tspId q)
  ex.rollbackStoreTx
  Prog.ofExcept outcome

variable {m' : Machine ω} {res : Except Signal Bool} {mode : StoreMode}

omit hr in
theorem runTransactionSubProcess_run (tspId : String) (q : ProcessDefinition) {m : Machine ω}
    (h : ex.runTransactionSubProcess r tspId q m = (res, m')) : ∃ t, ex.transactionScope r tspId q
        ⟨m.world, { m.st.child q with storeTx := some .empty }⟩ = (res, t) ∧
      m' = ⟨t.world, m.st.visitAll t.st.visited⟩ := by
  rcases hout : ex.transactionScope r tspId q
    ⟨m.world, { m.st.child q with storeTx := some .empty }⟩ with ⟨out, t⟩
  have hrun : ex.runTransactionSubProcess r tspId q m
      = (inScope { m.st.child q with storeTx := some .empty } (ex.transactionScope r tspId q) >>=
          fun x => (do
            modifyState (·.visitAll x.2.visited)
            .ofExcept x.1 : Exec ω Bool)) m := rfl
  rw [hrun, bind_run_ok (inScope_run hout)] at h
  refine ⟨t, ?_, ?_⟩ <;> cases out <;> cases h <;> rfl

include hr

theorem transactionBody_ends (hq : Guarded ex (.buffered N) q) (tspId : String)
    (hL : ∀ m, InMode ex (.buffered N) q d stores writes m → L m.world.stores m.world.writes)
    (hcommit : Triple (InMode ex (.buffered N) q d stores writes) ex.commitStoreTx
      (fun err m => if err.isSome then L m.world.stores m.world.writes
        else D m.world.stores m.world.writes) (fun _ => False)) :
    Triple (InMode ex (.buffered N) q d stores writes) (ex.transactionBody r tspId q)
      (fun cancelled m => if cancelled then L m.world.stores m.world.writes
        else D m.world.stores m.world.writes) (fun m => L m.world.stores m.world.writes) := by
  rw [transactionBody]
  refine .bind ((inMode_runScope hr hq _).relax (fun _ _ h => h) hL) fun cancelled => ?_
  cases cancelled with
  | true =>
    refine .bind (Q := fun _ => InMode ex (.buffered N) q d stores writes)
      (.relax (E := InMode ex (.buffered N) q d stores writes) ?_ (fun _ _ h => h) hL)
      fun _ => triple_pure fun m hm => hL m hm
    exact inMode_of_touches (T := fun _ => []) (C := fun _ => True) fun _ _ =>
      ex.touches_fireCompensation (records_true q) none
  | false =>
    refine .bind (hcommit.relax (fun _ _ h => h) fun _ h => h.elim) fun err => ?_
    cases err with
    | some err => exact triple_throw fun _ h => h
    | none => exact triple_pure fun _ h => h

/-- A transaction ends with `L` unless it committed, and then with `D`; what is still open is rolled
back. -/
theorem transaction_ends (hq : Guarded ex (.buffered N) q) (tspId : String) (m : Machine ω)
    (hL : ∀ t,
      InMode ex (.buffered N) q m.st.deployment m.world.stores m.world.writes t →
      L t.world.stores t.world.writes)
    (hcommit : Triple (InMode ex (.buffered N) q m.st.deployment m.world.stores m.world.writes)
      ex.commitStoreTx (fun err t => if err.isSome then L t.world.stores t.world.writes
        else D t.world.stores t.world.writes) (fun _ => False))
    (hrun : ex.runTransactionSubProcess r tspId q m = (res, m')) :
    (res = .ok false → D m'.world.stores m'.world.writes) ∧
      (res ≠ .ok false → L m'.world.stores m'.world.writes) := by
  have hsub : InMode ex (.buffered N) q m.st.deployment m.world.stores m.world.writes
      ⟨m.world, { m.st.child q with storeTx := some .empty }⟩ :=
    ⟨rfl, rfl, rfl, [], (append_nil _).symm, .empty, rfl, .empty⟩
  have hscope : Triple (InMode ex (.buffered N) q m.st.deployment m.world.stores m.world.writes)
      (ex.transactionScope r tspId q)
      (fun cancelled t => if cancelled then L t.world.stores t.world.writes
        else D t.world.stores t.world.writes)
      (fun t => L t.world.stores t.world.writes) := by
    refine .bind ((triple_attempt (transactionBody_ends hr hq tspId hL hcommit)).relax
      (fun _ _ h => h) fun _ h => h.elim) fun outcome => ?_
    refine .bind ((ex.rollbackStoreTx_keeps (P := fun s w =>
      (∀ a, outcome = .ok a → if a then L s w else D s w) ∧ ∀ e, outcome = .error e → L s w)).relax
        (fun _ _ h => h) fun _ h => h.elim) fun _ => ?_
    cases outcome with
    | error e => exact triple_throw fun _ h => h.2 e rfl
    | ok cancelled => exact triple_pure fun _ h => h.1 cancelled rfl
  obtain ⟨hok, herr⟩ := hscope _ hsub
  obtain ⟨t, hout, rfl⟩ := runTransactionSubProcess_run tspId q hrun
  cases res with
  | error sig => exact ⟨fun h => (nomatch h), fun _ => herr sig t hout⟩
  | ok cancelled =>
    have hend := hok cancelled t hout
    cases cancelled with
    | true => exact ⟨fun h => (nomatch h), fun _ => hend⟩
    | false => exact ⟨fun _ => hend, fun h => absurd rfl h⟩

omit hr in
/-- A transaction that must stay empty has nothing open and nothing written. -/
theorem buffers_idle {rows : String → SortedMap String FeelValue} {ws : List RowWrite}
    {txs : SortedMap String StoreTx} (h : Buffers ex (fun _ => False) d rows ws txs) :
    ws = [] ∧ txs.entries = [] := by
  refine ⟨eq_nil_iff_forall_not_mem.mpr fun w hw => ?_,
    eq_nil_iff_forall_not_mem.mpr fun e he => ?_⟩
  · obtain ⟨name, tx, htx, -⟩ := h.written w hw
    exact h.named name tx htx
  · exact h.named e.1 e.2 (mem_entries.mp he)

theorem inMode_runTransactionSubProcess (hq : Guarded ex .idle q) (tspId : String) :
    Maintains (InMode ex mode p d stores writes) (ex.runTransactionSubProcess r tspId q) := by
  refine maintains_of_run fun m hm => ?_
  rcases hrun : ex.runTransactionSubProcess r tspId q m with ⟨res, m'⟩
  have hends := transaction_ends hr hq tspId m
    (L := fun s w => s = m.world.stores ∧ w = m.world.writes)
    (D := fun s w => s = m.world.stores ∧ w = m.world.writes)
    (fun t ht => ?_) (triple_of_run fun t ht => ?_) hrun
  · obtain ⟨t, -, rfl⟩ := runTransactionSubProcess_run tspId q hrun
    have hworld : t.world.stores = m.world.stores ∧ t.world.writes = m.world.writes := by
      by_cases hres : res = .ok false
      · exact hends.1 hres
      · exact hends.2 hres
    have hquiet : InMode ex mode p d stores writes ⟨t.world, m.st⟩ := hm.quiet ⟨rfl, hworld⟩
    exact (inMode_visitAll _).run hquiet
  · obtain ⟨ws, txs, hws, -, hbuf⟩ := InMode.buffers ex ht
    rw [(buffers_idle hbuf).1, append_nil] at hws
    exact ⟨ht.2.stores_eq, hws⟩
  · obtain ⟨ws, txs, hws, htxs, hbuf⟩ := InMode.buffers ex ht
    obtain ⟨hnil, hempty⟩ := buffers_idle hbuf
    rw [hnil, append_nil] at hws
    rw [ex.commitStoreTx_run htxs, hempty]
    refine ⟨fun err herr => ?_, nofun⟩
    cases herr
    exact ⟨ht.2.stores_eq, hws⟩

/-! ## The whole run -/

theorem storeRules_of_guarded (hapart : ex.StoresApart)
    (hp : Guarded ex mode p) : ex.StoreRules r p (mode.Keeps ex) := by
  refine ⟨fun n hn => ?_, fun n hn body hbody => ?_⟩
  · cases n
    case dataTask id dm =>
      exact views_of_inMode fun _ _ _ => ex.inMode_runDataTask hapart id (hp.tasks hn)
    case transactionSubProcess id inner =>
      exact views_of_inMode fun _ _ _ => inMode_runTransactionSubProcess hr (hp.nested hn) id
    case adHocSubProcess id inner cond =>
      exact views_of_inMode fun _ _ _ => inMode_runAdHocSubProcess hr hapart (hp.joined hn rfl) cond
    case eventSubProcess id inner code =>
      exact views_of_inMode fun _ _ _ => inMode_runEventSubProcess hr (hp.joined hn rfl) id
    case callActivity id element =>
      exact views_of_inMode fun _ _ _ => inMode_runCallActivity hr hp hn rfl
    case subProcess id inner =>
      exact views_of_inMode fun _ _ _ => inMode_runEmbeddedSubProcess hr (hp.embedded hn rfl) id
    all_goals trivial
  · have hact : n.activity = body := by rw [Node.activity, hbody, getD_some]
    cases body
    case callActivity id element =>
      exact views_of_inMode fun _ _ _ => inMode_runCallActivity hr hp hn hact
    case subProcess id inner =>
      exact views_of_inMode fun _ _ _ => inMode_runEmbeddedSubProcess hr (hp.embedded hn hact) id
    all_goals trivial

end transaction

/-- **Every scope stays in its mode for as long as it runs**, to any depth. -/
theorem keepsModes (ex : TokenExecutor ω) (hapart : ex.StoresApart) (fuel : Nat) :
    ex.KeepsModes ⟨fuel, ex.drain fuel⟩ := by
  induction fuel with
  | zero => exact fun _ _ _ _ _ _ _ => triple_throw fun _ h => h
  | succ fuel ih =>
    intro mode q kind d stores writes hq
    have hstep : ∀ nodeId, Maintains (InMode ex mode q d stores writes)
        (ex.tokenStep ⟨fuel, ex.drain fuel⟩ kind nodeId) := fun nodeId =>
      inMode_of_touches (T := fun b => (q.node nodeId).toOption.elim [] (parkTargets q b))
          (C := fun _ => True) fun b F =>
        ex.touches_tokenStep _ kind nodeId (fun node hnode id hid => by rw [hnode]; exact hid)
          (records_true q) (storeRules_of_guarded ih hapart hq) trivial
    refine maintains_of_run fun m hm => ?_
    change InMode ex mode q d stores writes (ex.drain (fuel + 1) kind m).2
    rcases hwork : m.st.work with _ | ⟨n, rest⟩
    · rw [ex.drain_succ_nil hwork]
      exact hm
    · have hpop : InMode ex mode q d stores writes (m.withWork rest) := hm
      have hmoved := (hstep n).run hpop
      rw [ex.drain_succ_cons hwork, result]
      rcases htoken : ex.tokenStep ⟨fuel, ex.drain fuel⟩ kind n (m.withWork rest)
        with ⟨sig | _ | _, m'⟩ <;> rw [htoken] at hmoved
      · exact hmoved
      · exact hmoved
      · exact (ih mode q kind d stores writes hq).run hmoved

/-! ## Atomicity -/

/-- **A transaction is atomic**: what data tasks wrote while it ran is in the stores if it
committed, and the stores are as they were if it did not. -/
structure Atomic (m : Machine ω) (res : Except Signal Bool) (m' : Machine ω) : Prop where
  committed : ∃ ws, m'.world.writes = m.world.writes ++ ws ∧
    (res = .ok false → rowsOf m'.world.stores = rowsAfter ws (rowsOf m.world.stores))
  abandoned : res ≠ .ok false → m'.world.stores = m.world.stores

def CommitsTogether (ex : TokenExecutor ω) (N : String → Prop) : Prop :=
  (∀ name name', N name → N name' → name = name') ∨
    ∀ store env, (ex.storeFault .commit store env).1 = none

variable {N : String → Prop}

theorem length_entries_le_one (hN : ∀ name name', N name → N name' → name = name')
    {txs : SortedMap String StoreTx} (h : ∀ name tx, txs.get name = some tx → N name) :
    txs.entries.length ≤ 1 := by
  have hsorted := txs.sorted
  have hnamed : ∀ e ∈ txs.entries, N e.1 := fun e he => h e.1 e.2 (mem_entries.mp he)
  match hent : txs.entries with
  | [] => exact Nat.zero_le 1
  | [_] => exact le_refl 1
  | e :: e' :: rest =>
    rw [hent] at hsorted hnamed
    have hlt : e.1 < e'.1 := (pairwise_cons.mp hsorted).1 _ (.head _)
    rw [hN e.1 e'.1 (hnamed e mem_cons_self) (hnamed e' (.tail _ mem_cons_self))] at hlt
    exact absurd hlt (lt_irrefl _)

theorem commitStoreTx_together {ex : TokenExecutor ω}
    (hN : ex.CommitsTogether N) {q : ProcessDefinition} {d : DeploymentId}
    {stores : String → StoreCell} {writes : List RowWrite} :
    Triple (InMode ex (.buffered N) q d stores writes) ex.commitStoreTx (fun err t =>
        if err.isSome then t.world.stores = stores ∧ ∃ ws, t.world.writes = writes ++ ws
        else ∃ ws, t.world.writes = writes ++ ws ∧
          rowsOf t.world.stores = rowsAfter ws (rowsOf stores)) (fun _ => False) := by
  intro m hm
  obtain ⟨ws, txs, hws, htxs, hbuf⟩ := InMode.buffers ex hm
  have hstores : m.world.stores = stores := hm.2.stores_eq
  rw [ex.commitStoreTx_run htxs]
  refine ⟨fun err t hrun => ?_, fun e t hrun => ex.raises_commitAll _ _ _ e t hrun⟩
  cases err with
  | none =>
    obtain ⟨-, hrows, hwrites⟩ := ex.commitAll_published hrun
    refine ⟨ws, hwrites.trans hws, hrows.trans ?_⟩
    rw [hstores]
    refine publish_eq_replay (fun e he => ?_) fun e he => ?_
    · obtain ⟨entry, hentry, rfl⟩ := mem_map.mp he
      exact hbuf.pending entry.1 entry.2 (mem_entries.mp hentry)
    · obtain ⟨w, hw, rfl⟩ := mem_map.mp he
      obtain ⟨name, tx, htx, hstore⟩ := hbuf.written w hw
      exact ⟨_, List.mem_map_of_mem (mem_entries.mpr htx), hstore⟩
  | some err =>
    rcases hN with hone | hfault
    · obtain ⟨hkept, hwrites⟩ := ex.commitAll_refused (length_entries_le_one hone hbuf.named) hrun
      exact ⟨hkept.trans hstores, ws, hwrites.trans hws⟩
    · have hok := ex.commitAll_of_noFault hfault txs.entries
        { m with st := { m.st with storeTx := none } }
      rw [hrun] at hok
      cases hok

/-- **A transaction whose writes all go through it is atomic.**  No scope below it writes but those
that join it, no two names stand for one store, and its commits cannot fail one after the other:
then the stores get every row that was written if it commits, and are as they were when it is
cancelled, is left by an error, or fails. -/
theorem transaction_atomic (ex : TokenExecutor ω) (fuel : Nat) (tspId : String)
    (inner : ProcessDefinition) (N : String → Prop) (m m' : Machine ω) (res : Except Signal Bool)
    (hapart : ex.StoresApart) (hinner : Guarded ex (.buffered N) inner)
    (hcommits : ex.CommitsTogether N)
    (hrun : ex.runTransactionSubProcess ⟨fuel, ex.drain fuel⟩ tspId inner m = (res, m')) :
    Atomic m res m' := by
  have hends := transaction_ends (ex.keepsModes hapart fuel) hinner tspId m
    (L := fun s w => s = m.world.stores ∧ ∃ ws, w = m.world.writes ++ ws)
    (D := fun s w => ∃ ws, w = m.world.writes ++ ws ∧
      rowsOf s = rowsAfter ws (rowsOf m.world.stores))
    (fun t ht => ?_) (commitStoreTx_together hcommits) hrun
  · by_cases hres : res = .ok false
    · obtain ⟨ws, hws, hrows⟩ := hends.1 hres
      exact ⟨⟨ws, hws, fun _ => hrows⟩, fun h => absurd hres h⟩
    · obtain ⟨hstores, ws, hws⟩ := hends.2 hres
      exact ⟨⟨ws, hws, fun h => absurd h hres⟩, fun _ => hstores⟩
  · obtain ⟨ws, -, hws, -, -⟩ := InMode.buffers ex ht
    exact ⟨ht.2.stores_eq, ws, hws⟩

end TokenExecutor

/-! ## A booking -/

def storeExecutor (refuses : String → Bool) : TokenExecutor Unit :=
  { TokenExecutor.builder (fun _ => none) "i" "now" with
    valueEvaluator := fun expr _ => .ok (.string expr)
    dataStores := some fun _ name => some name
    storeFault := fun op store w =>
      (match op with
        | .commit => if refuses store then some "down" else none
        | _ => none, w) }

def bookRow (store : String) : DataMapping :=
  { storeWrites := [⟨store, "row", none, "booking", false, false⟩] }

def around (id : String) (task last : Node) : ProcessDefinition where
  id := id
  nodes := [.startEvent "start", task, last]
  flows := [⟨"f0", "start", task.id, none⟩, ⟨"f1", task.id, last.id, none⟩]
  bindings := .empty
  coveragePaths := []

def booking (last : Node) : ProcessDefinition :=
  around "booking" (.dataTask "seat" (bookRow "seats")) last

def boxedBooking : ProcessDefinition :=
  around "boxed" (.subProcess "box" (booking (.endEvent "end"))) (.cancelEndEvent "cancel")

def tripBooking : ProcessDefinition :=
  around "trip" (.dataTask "trip" ⟨[], [], [], [], [],
    (bookRow "seats").storeWrites ++ (bookRow "meals").storeWrites⟩) (.endEvent "end")

def emptyHouse : Machine Unit := ⟨.fresh (), .new boxedBooking .unresolved .empty ""⟩

def book (refuses : String → Bool) (inner : ProcessDefinition) :
    Except Signal Bool × Machine Unit :=
  (storeExecutor refuses).runTransactionSubProcess ⟨20, (storeExecutor refuses).drain 20⟩ "tx" inner
    emptyHouse

theorem storeExecutor_apart (refuses : String → Bool) : (storeExecutor refuses).StoresApart := by
  rintro d name name' store ⟨registry, hreg, hname⟩ ⟨registry', hreg', hname'⟩
  cases hreg
  cases hreg'
  cases hname
  cases hname'
  rfl

theorem booking_guarded (refuses : String → Bool) :
    Guarded (storeExecutor refuses) (.buffered (· = "seats")) (booking (.endEvent "end")) := by
  have hplain : ∀ n ∈ (booking (.endEvent "end")).nodes, n.joinedScope.isNone ∧
      n.loopBody.isNone := by decide
  refine .intro (fun id dm h => ?_) (fun n hn q h => ?_) (fun n hn id q h => ?_)
    (fun id q h => ?_) fun n hn id element h => ?_
  · have hdm : dm = bookRow "seats" := by
      simp only [booking, around, mem_cons, reduceCtorEq, Node.dataTask.injEq,
        not_mem_nil, or_false, false_or] at h
      exact h.2
    rw [hdm]
    exact ⟨fun _ hr => (nomatch hr), fun w hw => by rw [mem_singleton.mp hw]; rfl⟩
  · rw [isNone_iff_eq_none.mp (hplain n hn).1] at h
    cases h
  · rw [Node.activity, isNone_iff_eq_none.mp (hplain n hn).2] at h
    cases h
    simp [booking, around] at hn
  · simp [booking, around] at h
  · rw [Node.activity, isNone_iff_eq_none.mp (hplain n hn).2] at h
    cases h
    simp [booking, around] at hn

theorem seat_booked : TokenExecutor.Atomic emptyHouse (.ok false)
        (book (fun _ => false) (booking (.endEvent "end"))).2 ∧
      ((book (fun _ => false) (booking (.endEvent "end"))).2.world.stores "seats").data.get "row"
        = some .null :=
  ⟨TokenExecutor.transaction_atomic (storeExecutor fun _ => false) 20 "tx"
    (booking (.endEvent "end")) (· = "seats") emptyHouse _ _ (storeExecutor_apart _)
    (booking_guarded _) (Or.inl fun _ _ h h' => h.trans h'.symm) rfl, rfl⟩

/-- **A seat booked in a sub-process stays booked when the transaction is cancelled, and a meal
stays booked when the store of the seats refuses its commit.** -/
theorem booking_kept : (∃ m', book (fun _ => false) boxedBooking = (.ok true, m') ∧
      ¬ TokenExecutor.Atomic emptyHouse (.ok true) m') ∧
    ∃ sig m', book (· == "seats") tripBooking = (.error sig, m') ∧
      ¬ TokenExecutor.Atomic emptyHouse (.error sig) m' := by
  refine ⟨⟨_, rfl, fun h => ?_⟩, _, _, rfl, fun h => ?_⟩
  · have hkept := congrArg (fun stores => (stores "seats").data.get "row") (h.abandoned nofun)
    cases hkept
  · have hkept := congrArg (fun stores => (stores "meals").data.get "row") (h.abandoned nofun)
    cases hkept

end Sutra
