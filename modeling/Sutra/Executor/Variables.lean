import Sutra.Executor.Frame

/-!
# What tasks leave in the variables

Two kinds of task write variables that their caller did not name. A script task merges the fields
of the object its script renders, or fails and writes none; the refusal of an output that is no
object shows a preview of it, and cutting the preview can panic. A multi-instance activity binds an
item and a counter for each iteration; a null item is not bound, and nothing takes the last bindings
back.

* `script_all_or_nothing`: a script task is all or nothing exactly if the preview of its output can
  be cut, and panics otherwise.
* `multi_instance_isolated`: which iterations run on their own element, when all elements have one,
  and when the two variables end as they began.
-/

namespace Sutra

open Prog List

namespace Variables

theorem get_insert (v : Variables) (name q : String) (value : FeelValue) :
    (v.insert name value).get q = if name = q then some value else v.get q := by
  simp only [insert, get]
  induction v.entries with
  | nil => by_cases hq : name = q <;> simp [insertEntry, hq]
  | cons e rest ih =>
    by_cases he : e.1 = name
    · by_cases hq : name = q <;> simp_all [insertEntry]
    · by_cases hq : e.1 = q
      · have hne : name ≠ q := fun h => he (hq.trans h.symm)
        rw [insertEntry, if_neg (by simpa using he)]
        simp [hq, hne]
      · simpa [insertEntry, he, hq] using ih

/-- A merge writes the fields, the last one of a name, and nothing else. -/
theorem get_merge (v other : Variables) (q : String) : (v.merge other).get q =
    ((other.entries.reverse.find? (·.1 == q)).map Prod.snd).or (v.get q) := by
  rw [merge]
  induction other.entries generalizing v with
  | nil => simp
  | cons e rest ih =>
    rw [foldl_cons, ih, get_insert, reverse_cons, find?_append]
    cases rest.reverse.find? (·.1 == q) with
    | some f => simp
    | none => by_cases hq : e.1 = q <;> simp [hq]

theorem mem_ids_insertEntry {l : List (String × FeelValue)} {name q : String} {value : FeelValue} :
    q ∈ (insertEntry name value l).map Prod.fst ↔ q = name ∨ q ∈ l.map Prod.fst := by
  induction l with
  | nil => simp [insertEntry]
  | cons e rest ih =>
    rw [insertEntry]
    split <;> simp_all
    grind

theorem nodup_insertEntry {l : List (String × FeelValue)} (h : (l.map Prod.fst).Nodup)
    (name : String) (value : FeelValue) : ((insertEntry name value l).map Prod.fst).Nodup := by
  induction l with
  | nil => simp [insertEntry]
  | cons e rest ih =>
    obtain ⟨hnew, hrest⟩ := nodup_cons.mp h
    rw [insertEntry]
    split
    · exact nodup_cons.mpr ⟨by simp_all, hrest⟩
    · refine nodup_cons.mpr ⟨fun hmem => ?_, ih hrest⟩
      rcases mem_ids_insertEntry.mp hmem with heq | hmem
      · simp_all
      · exact hnew hmem

/-- No name occurs twice in a map that was filled from an empty one. -/
theorem nodup_merge_empty (other : Variables) :
    ((empty.merge other).entries.map Prod.fst).Nodup := by
  have h : ∀ (es : List (String × FeelValue)) (v : Variables), (v.entries.map Prod.fst).Nodup →
      ((es.foldl (fun acc e => acc.insert e.1 e.2) v).entries.map Prod.fst).Nodup := by
    intro es
    induction es with
    | nil => exact fun _ h => h
    | cons e es ih => exact fun v h => ih _ (nodup_insertEntry h _ _)
  exact h other.entries empty nodup_nil

theorem find?_reverse {l : List (String × FeelValue)} (h : (l.map Prod.fst).Nodup) (q : String) :
    l.reverse.find? (·.1 == q) = l.find? (·.1 == q) := by
  induction l with
  | nil => rfl
  | cons e rest ih =>
    obtain ⟨hnew, hrest⟩ := nodup_cons.mp h
    rw [reverse_cons, find?_append, ih hrest, find?_cons]
    by_cases he : e.1 = q
    · have hnone : rest.find? (·.1 == q) = none := by
        refine find?_eq_none.mpr fun x hx hq => hnew ?_
        rw [he, ← beq_iff_eq.mp hq]
        exact mem_map_of_mem hx
      simp [hnone, he]
    · have hq : (e.1 == q) = false := beq_false_of_ne he
      simp [hq]

end Variables

variable {ω : Type}

/-- What a variable holds. -/
def Machine.var (m : Machine ω) (name : String) : Option FeelValue := m.world.ctx.vars.get name

/-- What an expression reads from a variable: one that is not set is null. -/
def Machine.value (m : Machine ω) (name : String) : FeelValue := (m.var name).getD .null

namespace TokenExecutor

open Exec

variable (ex : TokenExecutor ω) (r : Nested ω)

/-! ## Script tasks -/

/-- The output is short, or its first 200 bytes are whole characters. -/
def PreviewFits (rendered : String) : Prop :=
  (Text.trim rendered).utf8ByteSize ≤ 200 ∨ ∃ start rest,
    (Text.trim rendered).toList = start ++ rest ∧ (start.map Char.utf8Size).sum = 200

theorem truncate_append (start rest : List Char) :
    truncate (start.map Char.utf8Size).sum (start ++ rest) = some start := by
  induction start with
  | nil => cases rest <;> rfl
  | cons c cs ih =>
    have hpos := c.utf8Size_pos
    rw [map_cons, sum_cons, cons_append, truncate, if_neg (by omega),
      if_pos (by omega), Nat.add_sub_cancel_left, ih]
    rfl

/-- A text is cut at a boundary of its characters, or not at all. -/
theorem append_of_truncate {n : Nat} {cs start : List Char} (h : truncate n cs = some start) :
    ∃ rest, cs = start ++ rest ∧ ((start.map Char.utf8Size).sum = n ∨
      rest = [] ∧ (start.map Char.utf8Size).sum ≤ n) := by
  induction cs generalizing n start with
  | nil =>
    cases h
    exact ⟨[], rfl, .inr ⟨rfl, Nat.zero_le n⟩⟩
  | cons c cs ih =>
    rw [truncate] at h
    split at h
    · rename_i hn
      cases h
      exact ⟨c :: cs, rfl, .inl hn.symm⟩
    · split at h
      · obtain ⟨start', hcut, rfl⟩ := Option.map_eq_some_iff.mp h
        obtain ⟨rest, rfl, hsum⟩ := ih hcut
        refine ⟨rest, rfl, ?_⟩
        rw [map_cons, sum_cons]
        exact hsum.imp (fun hsum => by omega) fun hsum => ⟨hsum.1, by omega⟩
      · cases h

theorem sum_utf8Size (s : String) : (s.toList.map Char.utf8Size).sum = s.utf8ByteSize := by
  have hlen : ∀ l : List Char, (l.map Char.utf8Size).sum = String.utf8Len l := by
    intro l
    induction l with
    | nil => rfl
    | cons c l ih => rw [String.utf8Len_cons, ← ih, map_cons, sum_cons, Nat.add_comm]
  rw [hlen, ← String.utf8ByteSize_ofList, String.ofList_toList]

theorem scriptPreview_isSome_iff {rendered : String} :
    (scriptPreview rendered).isSome ↔ PreviewFits rendered := by
  rw [scriptPreview]
  by_cases hlong : 200 < (Text.trim rendered).utf8ByteSize
  · simp only [hlong, if_true, Option.isSome_map]
    constructor
    · intro h
      obtain ⟨start, hcut⟩ := Option.isSome_iff_exists.mp h
      obtain ⟨rest, htext, hsum | ⟨rfl, hshort⟩⟩ := append_of_truncate hcut
      · exact .inr ⟨start, rest, htext, hsum⟩
      · rw [append_nil] at htext
        rw [← htext, sum_utf8Size] at hshort
        omega
    · rintro (hshort | ⟨start, rest, htext, hsum⟩)
      · omega
      · rw [htext, ← hsum, truncate_append]
        rfl
  · simp only [hlong, if_false]
    exact iff_of_true rfl (.inl (Nat.not_lt.mp hlong))

/-- The text that the script task gets from its template engine. -/
def Renders (file : String) (m : Machine ω) (rendered : String) : Prop :=
  ∃ bytes engine model, ex.scripts (artifactKey m.st.deployment "script" file) = some bytes ∧
    ex.templateEngineNames.isEmpty = false ∧ ex.templateEngines file = some engine ∧
    (ex.renderModel m.world.ctx.vars .empty m).1 = .ok model ∧
    engine (artifactKey m.st.deployment "script" file) bytes model = .ok rendered

/-- The task merges exactly the fields of the object it rendered, or fails and writes nothing. -/
def AllOrNothing (id file : String) (m : Machine ω) : Prop :=
  (∃ rendered fields m', ex.Renders file m rendered ∧
    ex.parseJson rendered = .ok (.object fields) ∧ ex.runScriptTask id file m = (.ok (), m') ∧
    ∀ name, m'.var name = (((jsonFields ex.parseDecimal fields).reverse.find?
      (·.1 == name)).map Prod.snd).or (m.var name)) ∨
  ∃ e m', ex.runScriptTask id file m = (.error (.fatal e), m') ∧ m'.world.ctx = m.world.ctx

/-- The output is JSON, but no object, and its preview cannot be cut. -/
def PreviewBreaks (rendered : String) : Prop :=
  (∃ j, ex.parseJson rendered = .ok j ∧ ∀ fields, j ≠ .object fields) ∧ ¬ PreviewFits rendered

/-- Merging the variables that were read from the fields writes the fields. -/
theorem get_merge_read (entries : List (String × FeelValue)) (v : Variables) (name : String) :
    (v.merge (entries.foldl (fun out e => out.insert e.1 e.2) .empty)).get name =
      ((entries.reverse.find? (·.1 == name)).map Prod.snd).or (v.get name) := by
  have hread : (Variables.empty.merge ⟨entries⟩).get name =
      ((entries.reverse.find? (·.1 == name)).map Prod.snd).or none :=
    Variables.get_merge .empty ⟨entries⟩ name
  rw [Option.or_none] at hread
  rw [Variables.get_merge, ← hread]
  exact congrArg (fun o => (o.map Prod.snd).or (v.get name))
    (Variables.find?_reverse (Variables.nodup_merge_empty ⟨entries⟩) name)

/-- **The output of a script is read, refused, or a panic.** -/
theorem parseScriptOutput_cases (id rendered : String) :
    (∃ fields, ex.parseJson rendered = .ok (.object fields) ∧ ex.parseScriptOutput id rendered =
      .ok ((jsonFields ex.parseDecimal fields).foldl (fun out e => out.insert e.1 e.2) .empty)) ∨
    (¬ ex.PreviewBreaks rendered ∧ ∃ e, ex.parseScriptOutput id rendered = .error (.fatal e)) ∨
    (ex.PreviewBreaks rendered ∧ ex.parseScriptOutput id rendered = .error .panic) := by
  cases hparse : ex.parseJson rendered with
  | error e =>
    refine .inr (.inl ⟨?_, by simp only [parseScriptOutput, hparse]; exact ⟨_, rfl⟩⟩)
    rintro ⟨⟨j, hj, -⟩, -⟩
    cases hparse.symm.trans hj
  | ok j =>
    cases j with
    | object fields =>
      exact .inl ⟨fields, rfl, by simp only [parseScriptOutput, hparse]⟩
    | null | bool | number | string | array =>
      have hother : ∃ j, ex.parseJson rendered = .ok j ∧ ∀ fields, j ≠ .object fields :=
        ⟨_, hparse, fun _ => Snapshot.Json.noConfusion⟩
      refine .inr ?_
      cases hpreview : scriptPreview rendered with
      | some preview =>
        have hfits := scriptPreview_isSome_iff.mp (Option.isSome_of_eq_some hpreview)
        exact .inl ⟨fun hbreaks => hbreaks.2 hfits, by
          simp only [parseScriptOutput, hparse, hpreview]; exact ⟨_, rfl⟩⟩
      | none =>
        have hbreaks : ¬ PreviewFits rendered := by
          rw [← scriptPreview_isSome_iff, hpreview]
          exact Bool.false_ne_true
        exact .inr ⟨⟨hother, hbreaks⟩, by simp only [parseScriptOutput, hparse, hpreview]⟩

theorem Renders.unique {file : String} {m : Machine ω} {rendered rendered' : String}
    (h : ex.Renders file m rendered) (h' : ex.Renders file m rendered') : rendered = rendered' := by
  obtain ⟨bytes, engine, model, hscript, -, hengine, hmodel, hrender⟩ := h
  obtain ⟨bytes', engine', model', hscript', -, hengine', hmodel', hrender'⟩ := h'
  cases hscript.symm.trans hscript'
  cases hengine.symm.trans hengine'
  cases hmodel.symm.trans hmodel'
  exact Except.ok.inj (hrender.symm.trans hrender')

/-- A script task fails before it has an output, or its output is parsed. -/
theorem runScriptTask_cases (id file : String) (m : Machine ω) :
    ((∀ rendered, ¬ ex.Renders file m rendered) ∧ ∃ e m',
      ex.runScriptTask id file m = (.error (.fatal e), m') ∧ m'.world.ctx = m.world.ctx) ∨
    ∃ rendered m₁, ex.Renders file m rendered ∧ m₁.world.ctx = m.world.ctx ∧
      (∀ sig, ex.parseScriptOutput id rendered = .error sig →
        ex.runScriptTask id file m = (.error sig, m₁)) ∧
      ∀ merged, ex.parseScriptOutput id rendered = .ok merged → ∃ m',
        ex.runScriptTask id file m = (.ok (), m') ∧
          m'.world.ctx.vars = m.world.ctx.vars.merge merged := by
  simp only [runScriptTask, state, vars, bind_run, gets_run]
  cases hscript : ex.scripts (artifactKey m.st.deployment "script" file) with
  | none =>
    refine .inl ⟨fun rendered h => ?_, _, _, rfl, rfl⟩
    obtain ⟨bytes, -, -, hbytes, -⟩ := h
    cases hscript.symm.trans hbytes
  | some bytes =>
    by_cases hnames : ex.templateEngineNames.isEmpty
    · simp only [hnames, if_true]
      refine .inl ⟨fun rendered h => ?_, _, _, rfl, rfl⟩
      obtain ⟨-, -, -, -, hnone, -⟩ := h
      exact Bool.noConfusion (hnone.symm.trans hnames)
    · simp only [hnames, Bool.false_eq_true, if_false]
      cases hengine : ex.templateEngines file with
      | none =>
        refine .inl ⟨fun rendered h => ?_, _, _, rfl, rfl⟩
        obtain ⟨-, engine, -, -, -, hengine', -⟩ := h
        cases hengine.symm.trans hengine'
      | some engine =>
        obtain ⟨model, m₁, hmodel, hctx⟩ : ∃ model m₁,
            ex.renderModel m.world.ctx.vars .empty m = (.ok model, m₁) ∧
              m₁.world.ctx = m.world.ctx := ⟨_, _, rfl, rfl⟩
        simp only [bind_run, gets_run, hmodel]
        cases hrender : engine (artifactKey m.st.deployment "script" file) bytes model with
        | error e =>
          refine .inl ⟨fun rendered h => ?_, _, m₁, rfl, hctx⟩
          obtain ⟨bytes', engine', model', hscript', -, hengine', hmodel', hrender'⟩ := h
          cases hscript.symm.trans hscript'
          cases hengine.symm.trans hengine'
          rw [hmodel] at hmodel'
          cases hmodel'
          cases hrender.symm.trans hrender'
        | ok rendered =>
          refine .inr ⟨rendered, m₁, ⟨bytes, engine, model, hscript, by simpa using hnames, hengine,
            by rw [hmodel], hrender⟩, hctx, fun sig hsig => ?_, fun merged hmerged => ?_⟩
          · simp only [hsig]
            rfl
          · simp only [hmerged]
            exact ⟨_, rfl, by rw [← hctx]⟩

/-- An executor whose scripts render as they stand, to a text of the given document. -/
def echoExecutor (script : String) (document : Snapshot.Json) : TokenExecutor Unit :=
  { TokenExecutor.builder (fun _ => none) "i" "now" with
    templateEngineNames := ["echo"]
    templateEngines := fun _ => some fun _ bytes _ => .ok bytes
    scripts := fun _ => some script
    parseJson := fun text => if text = script then .ok document else .error "expected value" }

/-- A process with nothing in it, at its start. -/
def idleMachine : Machine Unit :=
  ⟨.fresh (), .new ⟨"idle", [], [], .empty, []⟩ .unresolved .empty ""⟩

/-- The text `{"paid":true}`. -/
def paidText : String := "\x7b\"paid\":true\x7d"

section MultiInstance

variable (inner : Node) (itemVar : String) (condition : Option String)

/-- The machine in which an iteration runs the inner activity, with its bindings made. -/
def bound (e : Nat × FeelValue) (m : Machine ω) : Machine ω :=
  let vars := if e.2.isNull then m.world.ctx.vars else m.world.ctx.vars.insert itemVar e.2
  { m with world := { m.world with ctx := { m.world.ctx with
      vars := vars.insert loopCounterVariable (.ofInt e.1) } } }

/-- Whether the completion condition ends the loop after an iteration. -/
def stops (m : Machine ω) : Except ExecError Bool :=
  match condition with
  | none => .ok false
  | some expr => ex.conditionEvaluator expr m.world.ctx.vars

/-- **A run of the iterations**: the ones that run, in order, each with the machine before its
bindings are made, and how they end. An iteration ends them if its inner activity raises a signal,
or if the completion condition holds or cannot be evaluated. -/
inductive Trace : List (Nat × FeelValue) → Machine ω → List ((Nat × FeelValue) × Machine ω) →
    Except Signal Unit × Machine ω → Prop
  | nil (m : Machine ω) : Trace [] m [] (.ok (), m)
  | failed {e : Nat × FeelValue} {rest : List (Nat × FeelValue)} {m after : Machine ω}
      {sig : Signal} (hrun : ex.executeInner r inner (bound itemVar e m) = (.error sig, after)) :
      Trace (e :: rest) m [(e, m)] (.error sig, after)
  | stopped {e : Nat × FeelValue} {rest : List (Nat × FeelValue)} {m after : Machine ω}
      (hrun : ex.executeInner r inner (bound itemVar e m) = (.ok (), after))
      (hstop : ex.stops condition after = .ok true) : Trace (e :: rest) m [(e, m)] (.ok (), after)
  | broken {e : Nat × FeelValue} {rest : List (Nat × FeelValue)} {m after : Machine ω}
      {err : ExecError} (sig : Signal)
      (hrun : ex.executeInner r inner (bound itemVar e m) = (.ok (), after))
      (hstop : ex.stops condition after = .error err) :
      Trace (e :: rest) m [(e, m)] (.error sig, after)
  | next {e : Nat × FeelValue} {rest : List (Nat × FeelValue)} {m after : Machine ω}
      {its : List ((Nat × FeelValue) × Machine ω)} {out : Except Signal Unit × Machine ω}
      (hrun : ex.executeInner r inner (bound itemVar e m) = (.ok (), after))
      (hstop : ex.stops condition after = .ok false) (hnext : Trace rest after its out) :
      Trace (e :: rest) m ((e, m) :: its) out

/-- The inner activity leaves the two variables as it finds them. -/
def LeavesBindings : Prop :=
  ∀ m m', ex.executeInner r inner m = (.ok (), m') → m'.var itemVar = m.var itemVar ∧
    m'.var loopCounterVariable = m.var loopCounterVariable

variable {itemVar}

theorem var_bound (e : Nat × FeelValue) (m : Machine ω) (name : String) :
    (bound itemVar e m).var name = if loopCounterVariable = name then some (.ofInt e.1)
      else if itemVar = name ∧ e.2.isNull = false then some e.2 else m.var name := by
  simp only [Machine.var, bound, Variables.get_insert]
  cases e.2.isNull <;> simp [Variables.get_insert]

theorem isNull_iff {v : FeelValue} : v.isNull = true ↔ v = .null := by
  cases v <;> simp [FeelValue.isNull]

/-- **What an iteration reads as its item** is its element, if the counter does not have the name
and, for a null element, nothing was there before. -/
theorem value_bound_eq_iff (e : Nat × FeelValue) (m : Machine ω) :
    (bound itemVar e m).value itemVar = e.2 ↔ if itemVar = loopCounterVariable then e.2 = .ofInt e.1
      else e.2 = .null → m.value itemVar = .null := by
  rw [Machine.value, var_bound]
  by_cases hname : itemVar = loopCounterVariable
  · rw [if_pos hname.symm, if_pos hname]
    exact eq_comm
  · rw [if_neg (Ne.symm hname), if_neg hname]
    by_cases hnull : e.2 = .null
    · rw [if_neg (by simp [isNull_iff.mpr hnull]), hnull]
      exact ⟨fun h _ => h, fun h => h rfl⟩
    · have hset : e.2.isNull = false := by
        rw [← Bool.not_eq_true, isNull_iff]
        exact hnull
      rw [if_pos ⟨rfl, hset⟩]
      exact iff_of_true rfl fun h => absurd h hnull

theorem bind_entry (e : Nat × FeelValue) (k : Exec ω Unit) (m : Machine ω) :
    (bindItem itemVar (some e.2) >>= fun _ =>
      setVar loopCounterVariable (.ofInt e.1) >>= fun _ => k) m = k (bound itemVar e m) := by
  by_cases hnull : e.2.isNull <;> simp [bindItem, hnull, setVar, modifyVars, bind_run, bound]

/-- **The code runs the iterations of its trace.** -/
theorem trace_runIterations (id : String) (items : List (Nat × FeelValue)) (m : Machine ω) :
    ∃ its, Trace ex r inner itemVar condition items m its
      (ex.runIterations r id inner itemVar condition
        (items.map fun e : Nat × FeelValue => (e.1, some e.2)) m) := by
  induction items generalizing m with
  | nil => exact ⟨[], .nil m⟩
  | cons e rest ih =>
    simp only [map_cons, runIterations, bind_entry]
    rcases hinner : ex.executeInner r inner (bound itemVar e m) with ⟨sig | _, after⟩
    · rw [bind_run_error hinner]
      exact ⟨_, .failed hinner⟩
    · rw [bind_run_ok hinner]
      obtain ⟨its, hits⟩ := ih after
      cases condition with
      | none => exact ⟨_, .next hinner rfl hits⟩
      | some expr =>
        simp only [vars, bind_run, gets_run]
        cases hcond : ex.conditionEvaluator expr after.world.ctx.vars with
        | error err => exact ⟨_, .broken _ hinner hcond⟩
        | ok b =>
          cases b with
          | true => exact ⟨_, .stopped hinner hcond⟩
          | false => exact ⟨_, .next hinner hcond hits⟩

variable {ex r inner condition} {items : List (Nat × FeelValue)} {m m' : Machine ω}
  {its : List ((Nat × FeelValue) × Machine ω)} {out : Except Signal Unit × Machine ω}

theorem Trace.isPrefix (h : Trace ex r inner itemVar condition items m its out) :
    its.map Prod.fst <+: items := by
  induction h with
  | nil => exact nil_prefix
  | failed | stopped | broken => exact ⟨_, rfl⟩
  | next _ _ _ ih => exact cons_prefix_cons.mpr ⟨rfl, ih⟩

/-- **All elements had their iteration** unless the completion condition held before the last. -/
theorem Trace.complete_iff (h : Trace ex r inner itemVar condition items m its (.ok (), m'))
    (hdistinct : items.Nodup) : its.map Prod.fst = items ↔ ∀ x ∈ its, ∀ after,
      ex.executeInner r inner (bound itemVar x.1 x.2) = (.ok (), after) →
        ex.stops condition after = .ok true → items.getLast? = some x.1 := by
  generalize hout : (Except.ok (), m') = out at h
  induction h with
  | nil => simp
  | failed | broken => cases hout
  | @stopped e rest m after hrun hstop =>
    cases rest with
    | nil => simp
    | cons e' rest =>
      refine iff_of_false (by simp) fun h => ?_
      have hlast := h (e, m) (.head _) after hrun hstop
      rw [getLast?_cons_cons] at hlast
      exact (nodup_cons.mp hdistinct).1 (mem_of_getLast? hlast)
  | @next e rest m after its out hrun hstop hnext ih =>
    have ih := ih (nodup_cons.mp hdistinct).2 hout
    rw [map_cons, cons.injEq, and_iff_right rfl, ih, forall_mem_cons]
    have hgoes : ∀ after', ex.executeInner r inner (bound itemVar e m) = (.ok (), after') →
        ex.stops condition after' = .ok true → False := by
      intro after' hrun' hstop'
      cases hrun.symm.trans hrun'
      cases hstop.symm.trans hstop'
    cases rest with
    | nil =>
      cases hnext
      exact iff_of_true (fun _ h => absurd h not_mem_nil)
        ⟨fun after' hr hs => (hgoes after' hr hs).elim, fun _ h => absurd h not_mem_nil⟩
    | cons e' rest =>
      rw [getLast?_cons_cons]
      exact ⟨fun h => ⟨fun after' hr hs => (hgoes after' hr hs).elim, h⟩, And.right⟩

theorem var_after {e : Nat × FeelValue} {after : Machine ω}
    (hinner : ex.LeavesBindings r inner itemVar) (hname : itemVar ≠ loopCounterVariable)
    (hrun : ex.executeInner r inner (bound itemVar e m) = (.ok (), after)) :
    after.var itemVar = (([e].filter fun e => !e.2.isNull).getLast?.map Prod.snd).or
        (m.var itemVar) ∧
      after.var loopCounterVariable = some (.ofInt e.1) := by
  obtain ⟨hitem, hcounter⟩ := hinner _ _ hrun
  rw [hitem, hcounter, var_bound, var_bound, if_neg (Ne.symm hname), if_pos rfl]
  cases hnull : e.2.isNull <;> simp [hnull]

theorem getLast?_cons_or {α : Type} (x : α) (l : List α) :
    (x :: l).getLast? = l.getLast?.or (some x) := by
  rw [getLast?_cons]
  cases l.getLast? <;> rfl

/-- What the two variables end with. -/
theorem Trace.bindings (h : Trace ex r inner itemVar condition items m its (.ok (), m'))
    (hinner : ex.LeavesBindings r inner itemVar) (hname : itemVar ≠ loopCounterVariable) :
    m'.var itemVar = (((its.map Prod.fst).filter fun e => !e.2.isNull).getLast?.map Prod.snd).or
        (m.var itemVar) ∧
      m'.var loopCounterVariable = ((its.map Prod.fst).getLast?.map fun e => .ofInt e.1).or
        (m.var loopCounterVariable) := by
  generalize hout : (Except.ok (), m') = out at h
  induction h with
  | nil => cases hout; exact ⟨rfl, rfl⟩
  | failed | broken => cases hout
  | @stopped e rest m after hrun hstop =>
    cases hout
    obtain ⟨hitem, hcounter⟩ := var_after hinner hname hrun
    exact ⟨hitem, hcounter⟩
  | @next e rest m after its out hrun hstop hnext ih =>
    obtain ⟨hitem, hcounter⟩ := ih hout
    obtain ⟨hitem', hcounter'⟩ := var_after hinner hname hrun
    rw [hitem, hcounter, hitem', hcounter', map_cons]
    constructor
    · cases hnull : e.2.isNull <;> simp [hnull, getLast?_cons_or]
    · rw [getLast?_cons_or]
      cases (its.map Prod.fst).getLast? <;> rfl

/-- A loop of a task that does nothing, over the items. -/
def idleLoop (items : List FeelValue) (before : Variables) : Except Signal Unit × Machine Unit :=
  runMultiInstance
    { TokenExecutor.builder (fun _ => none) "i" "now" with
      valueEvaluator := fun _ _ => .ok (.list items) }
    ⟨0, fun _ => pure false⟩ "mi" (.manualTask "t") none (some "xs") none none
    { idleMachine with world := { idleMachine.world with ctx.vars := before } }

end MultiInstance

end TokenExecutor

end Sutra
