import CityCrew.Plan.Rehearsal
import CityCrew.Proofs.RelatedRuns
import CityCrew.Proofs.Validation
import CityCrew.Settings.Load

/-!
# Settings as plans

Settings are written as a plan, and they are what this plan leaves behind: a text that only assigns
is loaded with the same result as if it had been run, in any world that keeps a table of what is
assigned. Of this table only the names of the settings count.
-/

namespace CityCrew

theorem Bindings.getElem?_insert_eq (b : Bindings) (name : String) (value : Value) (x : String) :
    (b.insert name value)[x]? = if x = name then some value else b[x]? := by
  simp only [Std.TreeMap.getElem?_insert, Std.LawfulEqCmp.compare_eq_iff_eq, eq_comm (a := x)]

theorem Bindings.run_lookup (name : String) (b : Bindings) :
    (Environment.lookup name : StateM Bindings Value).run b = (b[name]?.getD 0, b) := by
  change (b.getD name 0, b) = _
  rw [Std.TreeMap.getD_eq_getD_getElem?]

/-- What is assigned in the world goes into a table, and lookups read from there; what is not in it
reads 0. -/
structure KeepsTable {σ : Type} [Host σ] (table : σ → String → Option Value) : Prop where
  lookup : ∀ name s, ((Environment.lookup name : StateM σ Value).run s).1 = (table s name).getD 0
  table_lookup : ∀ name s, table ((Environment.lookup name : StateM σ Value).run s).2 = table s
  table_assign : ∀ name value s x, table ((Host.assign name value : StateM σ Unit).run s).2 x =
    if x = name then some value else table s x

namespace Rehearsal

def table (r : Rehearsal) (name : String) : Option Value :=
  r.bindings[name]?

theorem bindings_observe (event : Event) (r : Rehearsal) :
    ((observe event).run r).2.bindings = r.bindings := by
  change (if r.noteAll then { r with notes := r.notes.push event } else r).bindings = r.bindings
  split <;> rfl

theorem keepsTable : KeepsTable table where
  lookup name r := by
    change ((observe (.lookup name)).run r).2.bindings.getD name 0 = _
    rw [bindings_observe, Std.TreeMap.getD_eq_getD_getElem?]
    rfl
  table_lookup name r := by
    change (fun x => ((observe (.lookup name)).run r).2.bindings[x]?) = _
    rw [bindings_observe]
    rfl
  table_assign name value r x := by
    change (((observe (.assign name value)).run r).2.bindings.insert name value)[x]? = _
    rw [bindings_observe, Bindings.getElem?_insert_eq]
    rfl

end Rehearsal

namespace Settings

def ofTable (table : String → Option Value) : Settings where
  rows := ((table "m").map Int64.toInt).getD 20
  cols := ((table "n").map Int64.toInt).getD 15
  initPlanMin := ((table "init_plan_min").map Int64.toInt).getD 5
  initPlanSec := ((table "init_plan_sec").map Int64.toInt).getD 0
  initBudget := ((table "init_budget").map Int64.toInt).getD 10000
  initCenterDep := ((table "init_center_dep").map Int64.toInt).getD 100
  planRevMin := ((table "plan_rev_min").map Int64.toInt).getD 30
  planRevSec := ((table "plan_rev_sec").map Int64.toInt).getD 0
  revCost := ((table "rev_cost").map Int64.toInt).getD 100
  maxDep := ((table "max_dep").map Int64.toInt).getD 1000000
  interestPct := ((table "interest_pct").map Int64.toInt).getD 0

example : ofTable (fun _ => none) = {} :=
  rfl

def keys : List String :=
  ["m", "n", "init_plan_min", "init_plan_sec", "init_budget", "init_center_dep", "plan_rev_min",
    "plan_rev_sec", "rev_cost", "max_dep", "interest_pct"]

theorem bind_eq_ok_iff {ε α β : Type} {x : Except ε α} {f : α → Except ε β} {b : β} :
    x >>= f = .ok b ↔ ∃ a, x = .ok a ∧ f a = .ok b := by
  cases x with
  | error e => exact ⟨nofun, nofun⟩
  | ok a => exact ⟨fun h => ⟨a, rfl, h⟩, fun ⟨_, ha, h⟩ => Except.ok.inj ha ▸ h⟩

theorem eq_of_dimension_eq_ok {key : String} {value n : Int} (h : dimension key value = .ok n) :
    n = value := by
  unfold dimension at h
  split at h <;> cases h
  rfl

theorem dimension_eq_ok {key : String} {value : Int} (hLow : 1 ≤ value) (hHigh : value ≤ 1000) :
    dimension key value = .ok value :=
  if_neg (by omega)

theorem ofBindings_eq (b : Bindings) : ofBindings b = do
    let usual := ofTable fun name => b[name]?
    let rows ← dimension "m" usual.rows
    let cols ← dimension "n" usual.cols
    return { usual with rows := rows, cols := cols } :=
  rfl

def finish (bindings : Bindings) : Except SettingsError Settings := do
  let settings ← ofBindings bindings
  settings.validate
  return settings

/-- A value that does not even fit into a dimension is out of its range in any case. -/
theorem finish_eq_ok_iff (b : Bindings) (c : Settings) : finish b = .ok c ↔
    (ofTable fun name => b[name]?).InRange ∧ c = ofTable fun name => b[name]? := by
  rw [finish, ofBindings_eq]
  generalize (ofTable fun name => b[name]?) = r
  constructor
  · intro h
    obtain ⟨s, hBind, h⟩ := bind_eq_ok_iff.mp h
    obtain ⟨rows, hRows, hBind⟩ := bind_eq_ok_iff.mp hBind
    obtain ⟨cols, hCols, hBind⟩ := bind_eq_ok_iff.mp hBind
    obtain ⟨_, hValid, h⟩ := bind_eq_ok_iff.mp h
    obtain rfl := eq_of_dimension_eq_ok hRows
    obtain rfl := eq_of_dimension_eq_ok hCols
    cases hBind
    cases h
    exact ⟨(validate_eq_ok_iff r).mp hValid, rfl⟩
  · rintro ⟨hRange, rfl⟩
    refine bind_eq_ok_iff.mpr ⟨c, ?_, bind_eq_ok_iff.mpr ⟨(), (validate_eq_ok_iff c).mpr hRange, rfl⟩⟩
    refine bind_eq_ok_iff.mpr ⟨c.rows, dimension_eq_ok hRange.rows.1 hRange.rows.2, ?_⟩
    exact bind_eq_ok_iff.mpr ⟨c.cols, dimension_eq_ok hRange.cols.1 hRange.cols.2, rfl⟩

theorem finish_congr {b b' : Bindings} (h : ∀ key ∈ keys, b[key]? = b'[key]?) :
    finish b = finish b' := by
  have hSame : (ofTable fun name => b[name]?) = ofTable fun name => b'[name]? := by
    simp only [keys, List.forall_mem_cons] at h
    simp only [ofTable, h]
  rw [finish, finish, ofBindings_eq, ofBindings_eq, hSame]

end Settings

def Stmt.isSetting : Stmt → Bool
  | assign _ value _ => !value.usesInfo
  | _ => false

theorem Stmt.eq_assign_of_isSetting {x : Stmt} (h : x.isSetting) :
    ∃ name value line, x = .assign name value line ∧ value.usesInfo = false := by
  cases x with
  | assign name value line => exact ⟨name, value, line, rfl, (Bool.not_eq_true' _).mp h⟩
  | _ => cases h

def Stmt.fault (position : Nat) : Stmt → SettingsError
  | assign name _ line => .boardQuery name line
  | _ => .notAnAssignment position

variable {σ : Type}

namespace Settings

def assigned (b : Bindings) : Stmt → Bindings
  | .assign name value _ => b.insert name (value.eval.run b).1
  | _ => b

theorem assignAll_append {front : List Stmt} (hFront : ∀ x ∈ front, x.isSetting) (b : Bindings)
    (position : Nat) (back : List Stmt) : assignAll b position (front ++ back) =
      assignAll (front.foldl assigned b) (position + front.length) back := by
  induction front generalizing b position with
  | nil => rfl
  | cons x front ih =>
    obtain ⟨hx, hRest⟩ := List.forall_mem_cons.mp hFront
    obtain ⟨name, value, line, rfl, hInfo⟩ := Stmt.eq_assign_of_isSetting hx
    have hNext : assignNext b position (.assign name value line) =
        .ok (assigned b (.assign name value line)) := if_neg (by rw [hInfo]; nofun)
    rw [List.cons_append, assignAll, hNext]
    refine (ih hRest _ _).trans ?_
    rw [List.foldl_cons, List.length_cons, Nat.add_right_comm, Nat.add_assoc]

theorem assignAll_of_isSetting {xs : List Stmt} (h : ∀ x ∈ xs, x.isSetting) (b : Bindings)
    (position : Nat) : assignAll b position xs = .ok (xs.foldl assigned b) := by
  have hAll := assignAll_append h b position []
  rwa [List.append_nil, assignAll] at hAll

theorem assignNext_eq_error {x : Stmt} (h : ¬ x.isSetting) (b : Bindings) (position : Nat) :
    assignNext b position x = .error (x.fault position) := by
  cases x with
  | assign name value line =>
    have hInfo : value.usesInfo = true := by
      rwa [Stmt.isSetting, Bool.not_eq_true', Bool.not_eq_false] at h
    exact if_pos hInfo
  | _ => rfl

/-- One of the assignments reads `name` before another one binds it anew. -/
def ReadLater (name : String) : List Stmt → Prop
  | .assign target value _ :: rest =>
    name ∈ value.identifiers ∨ name ≠ target ∧ ReadLater name rest
  | _ => False

/-- The same assignments on both sides, except for those of names that are no settings and that are
not read later. -/
inductive SameButUnread : List Stmt → List Stmt → Prop
  | nil : SameButUnread [] []
  | same {name : String} {value : Expr} {line line' : Nat} {xs ys : List Stmt} :
      SameButUnread xs ys →
      SameButUnread (.assign name value line :: xs) (.assign name value line' :: ys)
  | left {name : String} {value : Expr} {line : Nat} {xs ys : List Stmt} : name ∉ keys →
      ¬ ReadLater name xs → SameButUnread xs ys → SameButUnread (.assign name value line :: xs) ys
  | right {name : String} {value : Expr} {line : Nat} {xs ys : List Stmt} : name ∉ keys →
      ¬ ReadLater name ys → SameButUnread xs ys → SameButUnread xs (.assign name value line :: ys)

theorem eval_congr {b b' : Bindings} {e : Expr} (hInfo : e.usesInfo = false)
    (h : ∀ name ∈ e.identifiers, b[name]? = b'[name]?) : (e.eval.run b).1 = (e.eval.run b').1 := by
  have hRespects : Respects (fun c c' => c = b ∧ c' = b') e.eval e.eval := by
    refine e.respects_eval_of_lookup (fun name hName => ?_) (by simp [hInfo])
    rintro _ _ ⟨rfl, rfl⟩
    rw [Bindings.run_lookup, Bindings.run_lookup, h name hName]
    exact ⟨rfl, rfl, rfl⟩
  exact (hRespects b b' ⟨rfl, rfl⟩).1

variable {xs ys : List Stmt} {b b' : Bindings}

theorem SameButUnread.foldl (h : SameButUnread xs ys) (hxs : ∀ x ∈ xs, x.isSetting)
    (hys : ∀ y ∈ ys, y.isSetting)
    (hAgree : ∀ name, name ∈ keys ∨ ReadLater name xs ∧ ReadLater name ys → b[name]? = b'[name]?) :
    ∀ key ∈ keys, (xs.foldl assigned b)[key]? = (ys.foldl assigned b')[key]? := by
  -- The tables need not agree on what only one side has yet to read: there it is read in vain.
  induction h generalizing b b' with
  | nil => exact fun key hKey => hAgree key (.inl hKey)
  | @same name value line line' xs ys _ ih =>
    obtain ⟨hx, hxs⟩ := List.forall_mem_cons.mp hxs
    have hInfo : value.usesInfo = false := (Bool.not_eq_true' _).mp hx
    have hValue := eval_congr hInfo fun x hx => hAgree x (.inr ⟨.inl hx, .inl hx⟩)
    refine ih hxs (List.forall_mem_cons.mp hys).2 fun x hx => ?_
    rw [assigned, assigned, hValue, Bindings.getElem?_insert_eq, Bindings.getElem?_insert_eq]
    rcases Decidable.em (x = name) with rfl | hNe
    · rw [if_pos rfl, if_pos rfl]
    · rw [if_neg hNe, if_neg hNe]
      exact hAgree x (hx.imp_right fun ⟨hLeft, hRight⟩ => ⟨.inr ⟨hNe, hLeft⟩, .inr ⟨hNe, hRight⟩⟩)
  | @left name value line xs ys hName hUnread _ ih =>
    refine ih (List.forall_mem_cons.mp hxs).2 hys fun x hx => ?_
    have hNe : x ≠ name := by
      rintro rfl
      exact hx.elim hName fun hRead => hUnread hRead.1
    rw [assigned, Bindings.getElem?_insert_eq, if_neg hNe]
    exact hAgree x (hx.imp_right fun ⟨hLeft, hRight⟩ => ⟨.inr ⟨hNe, hLeft⟩, hRight⟩)
  | @right name value line xs ys hName hUnread _ ih =>
    refine ih hxs (List.forall_mem_cons.mp hys).2 fun x hx => ?_
    have hNe : x ≠ name := by
      rintro rfl
      exact hx.elim hName fun hRead => hUnread hRead.2
    rw [assigned, Bindings.getElem?_insert_eq, if_neg hNe]
    exact hAgree x (hx.imp_right fun ⟨hLeft, hRight⟩ => ⟨hLeft, .inr ⟨hNe, hRight⟩⟩)

theorem foldl_assigned_eq_table [Host σ] {table : σ → String → Option Value}
    (hTable : KeepsTable table) {xs : List Stmt} (h : ∀ x ∈ xs, x.isSetting) {b : Bindings} {s : σ}
    (hSame : ∀ name, b[name]? = table s name) :
    ∀ name, (xs.foldl assigned b)[name]? = table ((Stmt.runAll xs).run s).2 name := by
  induction xs generalizing b s with
  | nil =>
    rw [Stmt.runAll]
    exact hSame
  | cons x xs ih =>
    obtain ⟨hx, hRest⟩ := List.forall_mem_cons.mp h
    obtain ⟨name, value, line, rfl, hInfo⟩ := Stmt.eq_assign_of_isSetting hx
    -- Evaluation does not touch the bindings, so the assignment adds to those it has read from.
    have hEval : Respects (fun c s => c = b ∧ ∀ name, b[name]? = table s name) value.eval
        (value.eval : StateM σ Value) := by
      refine value.respects_eval_of_lookup (fun name _ => ?_) (by simp [hInfo])
      rintro _ s ⟨rfl, hSame⟩
      rw [Bindings.run_lookup, hTable.lookup, hSame]
      refine ⟨rfl, rfl, fun x => ?_⟩
      rw [hTable.table_lookup, hSame]
    obtain ⟨hValue, -, hAfter⟩ := hEval b s ⟨rfl, hSame⟩
    have hRun : (Stmt.runAll (.assign name value line :: xs)).run s = (Stmt.runAll xs).run
        ((Host.assign name (value.eval.run s).1 : StateM σ Unit).run (value.eval.run s).2).2 := by
      rw [Stmt.runAll, Stmt.run]
      rfl
    rw [hRun]
    refine ih hRest fun x => ?_
    rw [assigned, Bindings.getElem?_insert_eq, hTable.table_assign, hValue, hAfter]

variable {text : String} {p : Plan}

theorem load_of_isSetting (h : Plan.parse text = .ok p) (hSettings : ∀ x ∈ p.statements, x.isSetting) :
    load text = finish (p.statements.foldl assigned ∅) := by
  rw [load, h]
  change (assignAll ∅ 1 p.statements >>= finish) = _
  rw [assignAll_of_isSetting hSettings]
  rfl

theorem load_eq_fault (h : Plan.parse text = .ok p) {front back : List Stmt} {x : Stmt}
    (hSplit : p.statements = front ++ x :: back) (hFront : ∀ y ∈ front, y.isSetting)
    (hx : ¬ x.isSetting) : load text = .error (x.fault (front.length + 1)) := by
  rw [load, h]
  change (assignAll ∅ 1 p.statements >>= finish) = _
  rw [hSplit, assignAll_append hFront, assignAll, assignNext_eq_error hx, Nat.add_comm]
  rfl

theorem exists_first_fault {xs : List Stmt} (h : ¬ ∀ x ∈ xs, x.isSetting) : ∃ front x back,
    xs = front ++ x :: back ∧ (∀ y ∈ front, y.isSetting) ∧ ¬ x.isSetting := by
  induction xs with
  | nil => exact absurd (List.forall_mem_nil _) h
  | cons x xs ih =>
    rcases Decidable.em x.isSetting with hx | hx
    · have hRest : ¬ ∀ y ∈ xs, y.isSetting := fun hRest => h (List.forall_mem_cons.mpr ⟨hx, hRest⟩)
      obtain ⟨front, y, back, rfl, hFront, hy⟩ := ih hRest
      exact ⟨x :: front, y, back, rfl, List.forall_mem_cons.mpr ⟨hx, hFront⟩, hy⟩
    · exact ⟨[], x, xs, rfl, List.forall_mem_nil _, hx⟩

/-- Loading a text comes to the same as running it. What is no plan, and the first statement that is
no assignment or asks the board, is refused. Otherwise the values that the run leaves in a table,
and the usual ones in place of those that it leaves out, are the settings if they are all in range.
What else is assigned does not matter unless it is read later. -/
theorem load_agrees_with_run :
    (∀ text e, Plan.parse text = .error e → load text = .error (.syntaxError e)) ∧
    (∀ text p, Plan.parse text = .ok p → (¬ ∀ x ∈ p.statements, x.isSetting) → ∃ front x back,
      p.statements = front ++ x :: back ∧ (∀ y ∈ front, y.isSetting) ∧ ¬ x.isSetting ∧
      load text = .error (x.fault (front.length + 1))) ∧
    (∀ text p, Plan.parse text = .ok p → (∀ x ∈ p.statements, x.isSetting) →
      ∀ (σ : Type) [Host σ] (table : σ → String → Option Value), KeepsTable table →
      ∀ s, (∀ name, table s name = none) → ∀ c, load text = .ok c ↔
        (ofTable (table (p.run.run s).2)).InRange ∧ c = ofTable (table (p.run.run s).2)) ∧
    ∀ text text' p p', Plan.parse text = .ok p → Plan.parse text' = .ok p' →
      (∀ x ∈ p.statements, x.isSetting) → (∀ x ∈ p'.statements, x.isSetting) →
      SameButUnread p.statements p'.statements → load text = load text' := by
  refine ⟨?_, ?_, ?_, ?_⟩
  · intro text e h
    rw [load, h]
    rfl
  · intro text p h hFault
    obtain ⟨front, x, back, hSplit, hFront, hx⟩ := exists_first_fault hFault
    exact ⟨front, x, back, hSplit, hFront, hx, load_eq_fault h hSplit hFront hx⟩
  · intro text p h hSettings σ _ table hTable s hEmpty c
    have hNone : ∀ name, (∅ : Bindings)[name]? = table s name := fun name => by
      rw [hEmpty, Std.TreeMap.getElem?_emptyc]
    have hLeft := foldl_assigned_eq_table hTable hSettings hNone
    rw [load_of_isSetting h hSettings, finish_eq_ok_iff, funext hLeft]
    rfl
  · intro text text' p p' h h' hSettings hSettings' hSame
    rw [load_of_isSetting h hSettings, load_of_isSetting h' hSettings']
    exact finish_congr (hSame.foldl hSettings hSettings' fun _ _ => rfl)

theorem loaded_as_run :
    load "m = 3 n = m + 1 x = 7" = .ok { rows := 3, cols := 4 } ∧
    load "y = n m = 3 n = m + 1" = load "m = 3 n = m + 1 x = 7" := by
  let p : Plan := ⟨[.assign "m" (.number 3) 1,
    .assign "n" (.binary .add (.identifier "m") (.number 1)) 1, .assign "x" (.number 7) 1]⟩
  let q : Plan := ⟨[.assign "y" (.identifier "n") 1, .assign "m" (.number 3) 1,
    .assign "n" (.binary .add (.identifier "m") (.number 1)) 1]⟩
  have hp : Plan.parse "m = 3 n = m + 1 x = 7" = .ok p := by with_unfolding_all rfl
  have hq : Plan.parse "y = n m = 3 n = m + 1" = .ok q := by with_unfolding_all rfl
  have hSettings : ∀ x ∈ p.statements, x.isSetting := by simp [p, Stmt.isSetting, Expr.usesInfo]
  have hSettings' : ∀ x ∈ q.statements, x.isSetting := by simp [q, Stmt.isSetting, Expr.usesInfo]
  obtain ⟨-, -, hLoad, hSame⟩ := load_agrees_with_run
  constructor
  · let s : Rehearsal := ⟨∅, 0, [], none, false, 0, #[]⟩
    have hTable : ofTable (Rehearsal.table (p.run.run s).2) = { rows := 3, cols := 4 } := by
      decide +kernel
    have hIff := hLoad _ p hp hSettings Rehearsal Rehearsal.table Rehearsal.keepsTable s
      (fun name => Std.TreeMap.getElem?_emptyc) { rows := 3, cols := 4 }
    rw [hTable] at hIff
    refine hIff.mpr ⟨?_, rfl⟩
    constructor <;> decide
  · refine hSame _ _ q p hq hp hSettings' hSettings ?_
    refine .left (by decide) ?_ (.same (.same (.right (by decide) ?_ .nil)))
    · simp [ReadLater, Expr.identifiers]
    · simp [ReadLater]

end Settings

end CityCrew
