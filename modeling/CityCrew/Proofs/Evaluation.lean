import Mathlib.Logic.Function.Iterate
import CityCrew.Proofs.Chance

/-!
# What an evaluation leaves behind

An evaluation reads the game, and draws a random number wherever it comes upon `random`, as long as
the acting player has not bound this name. It leaves nothing else behind. Where it draws nothing, it
cannot even tell which random numbers would come next.
-/

namespace CityCrew

def Random.Generator.after {α : Type} (draw : StateM Random.Generator α)
    (random : Random.Generator) : Random.Generator :=
  (draw.run random).2

namespace Game

variable {g : Game} {e : Expr} {name : String} {random : Random.Generator}

def nextRandom : Random.Generator → Random.Generator :=
  Random.Generator.after (Random.Generator.below .double randomBound)

def draws (g : Game) (e : Expr) : Nat :=
  if g.actor.bindings["random"]?.isSome then 0 else e.identifiers.count "random"

theorem draws_binary {op : Operator} {lhs rhs : Expr} :
    g.draws (.binary op lhs rhs) = g.draws rhs + g.draws lhs := by
  unfold draws
  split
  · rfl
  · rw [Expr.identifiers, List.count_append, Nat.add_comm]

theorem draws_eq_zero_iff :
    g.draws e = 0 ↔ g.actor.bindings["random"]?.isSome = true ∨ "random" ∉ e.identifiers := by
  unfold draws
  split
  next hBound => simp [hBound]
  next hUnbound => simp [hUnbound, List.count_eq_zero]

theorem draws_identifier_eq_zero (h : g.draws e = 0) (hName : name ∈ e.identifiers) :
    g.draws (.identifier name) = 0 := by
  rw [draws_eq_zero_iff] at h ⊢
  refine h.imp_right fun hRandom hMem => hRandom ?_
  rwa [List.mem_singleton.mp hMem]

theorem draws_identifier_of_ne (hName : name ≠ "random") : g.draws (.identifier name) = 0 :=
  draws_eq_zero_iff.mpr (.inr fun hMem => hName (List.mem_singleton.mp hMem).symm)

theorem draws_identifier_of_bound {value : Value} (h : g.actor.bindings[name]? = some value) :
    g.draws (.identifier name) = 0 := by
  rcases Decidable.em (name = "random") with rfl | hName
  · exact draws_eq_zero_iff.mpr (.inl (by rw [h]; rfl))
  · exact draws_identifier_of_ne hName

theorem draws_random_of_unbound (h : g.actor.bindings["random"]? = none) :
    g.draws (.identifier "random") = 1 := by
  simp [draws, h, Expr.identifiers]

def afterDraws (g : Game) (e : Expr) : Game :=
  g.withRandom (nextRandom^[g.draws e] g.random)

theorem afterDraws_eq_self (h : g.draws e = 0) : g.afterDraws e = g := by
  rw [afterDraws, h]
  rfl

theorem afterDraws_binary {op : Operator} {lhs rhs : Expr} :
    g.afterDraws (.binary op lhs rhs) = (g.afterDraws lhs).afterDraws rhs := by
  have hSame : (g.afterDraws lhs).draws rhs = g.draws rhs := rfl
  rw [afterDraws, draws_binary, Function.iterate_add_apply, afterDraws, hSame]
  rfl

theorem snd_run_drawRandom_eq (g : Game) :
    (drawRandom.run g).2 = g.withRandom (nextRandom g.random) := by
  rw [snd_run_drawRandom, withRandom, nextRandom, Random.Generator.after]

theorem snd_run_lookup_eq (g : Game) (name : String) :
    ((lookup name).run g).2 = g.afterDraws (.identifier name) := by
  cases hBound : g.actor.bindings[name]? with
  | some value =>
    rw [snd_run_lookup_of_bound hBound, afterDraws_eq_self (draws_identifier_of_bound hBound)]
  | none =>
    rw [snd_run_lookup_of_unbound hBound]
    rcases Decidable.em (name = "random") with rfl | hName
    · have hDrawn : ((special? "random").run g).2 = (drawRandom.run g).2 := by
        rw [special?_random, StateT.run_map]
        rfl
      rw [hDrawn, snd_run_drawRandom_eq, afterDraws, draws_random_of_unbound hBound,
        Function.iterate_one]
    · rw [snd_run_special?_of_ne hName, afterDraws_eq_self (draws_identifier_of_ne hName)]

theorem snd_run_eval (g : Game) (e : Expr) : (e.eval.run g).2 = g.afterDraws e := by
  have hSilent (g : Game) {e : Expr} (h : "random" ∉ e.identifiers) : g = g.afterDraws e :=
    (afterDraws_eq_self (draws_eq_zero_iff.mpr (.inr h))).symm
  induction e generalizing g with
  | number n => exact hSilent g List.not_mem_nil
  | identifier name => exact snd_run_lookup_eq g name
  | binary op lhs rhs hlhs hrhs =>
    have hRun : ((Expr.binary op lhs rhs).eval.run g).2 =
        (rhs.eval.run (lhs.eval.run g).2).2 := rfl
    rw [hRun, hrhs, hlhs, afterDraws_binary]
  | opponent => exact hSilent g List.not_mem_nil
  | nearby d => exact hSilent g List.not_mem_nil

theorem run_lookup_withRandom (h : g.draws (.identifier name) = 0) :
    (lookup name).run (g.withRandom random) = (((lookup name).run g).1, g.withRandom random) := by
  cases hBound : g.actor.bindings[name]? with
  | some value =>
    have hSame : (g.withRandom random).actor.bindings[name]? = some value := hBound
    rw [run_lookup_of_bound hBound, run_lookup_of_bound hSame]
  | none =>
    have hName : name ≠ "random" := by
      rintro rfl
      simp [draws, hBound, Expr.identifiers] at h
    have hFaithful := faithful_withRandom random
    rw [hFaithful.commutes_lookup (hFaithful.commutes_special? hName) g, snd_run_lookup_eq,
      afterDraws_eq_self h]

/-- An evaluation that draws nothing is the same, whatever random numbers are to come. -/
theorem run_eval_withRandom (h : g.draws e = 0) (random : Random.Generator) :
    e.eval.run (g.withRandom random) = ((e.eval.run g).1, g.withRandom random) := by
  -- The two games stay as they are, so the relation is between these two alone.
  have hRespects :
      Respects (fun s s' : Game => g = s ∧ g.withRandom random = s') e.eval e.eval := by
    have hFaithful := faithful_withRandom random
    refine e.respects_eval_of_lookup ?_ fun _ => ⟨?_, fun d => ?_⟩
    · rintro name hName _ _ ⟨rfl, rfl⟩
      have hNone := draws_identifier_eq_zero h hName
      have hState := (snd_run_lookup_eq g name).trans (afterDraws_eq_self hNone)
      have hRun : (lookup name).run (g.withRandom random) =
          (((lookup name).run g).1, g.withRandom random) := run_lookup_withRandom hNone
      exact ⟨(congrArg Prod.fst hRun).symm, hState.symm, (congrArg Prod.snd hRun).symm⟩
    · rintro _ _ ⟨rfl, rfl⟩
      exact ⟨congrArg Int64.ofNat (hFaithful.opponent g).symm, rfl, rfl⟩
    · rintro _ _ ⟨rfl, rfl⟩
      exact ⟨congrArg Int64.ofNat (hFaithful.nearby g d).symm, rfl, rfl⟩
  obtain ⟨hValue, -, hGame⟩ := hRespects g (g.withRandom random) ⟨rfl, rfl⟩
  exact Prod.ext hValue.symm hGame.symm

/-- An evaluation changes nothing but the random numbers to come. It draws one for each time that
`random` occurs in the expression, or none if the acting player has bound this name. Where it draws
none, the game stays as it is, the value is the same whenever it is asked for again, and it does not
depend on the random numbers. -/
theorem evaluation_only_draws (g : Game) (e : Expr) :
    (e.eval.run g).2 = { g with random := nextRandom^[g.draws e] g.random } ∧
    (g.actor.bindings["random"]?.isSome = true ∨ "random" ∉ e.identifiers →
      (e.eval.run g).2 = g ∧ e.eval.run (e.eval.run g).2 = e.eval.run g ∧
      ∀ random, (e.eval.run { g with random := random }).1 = (e.eval.run g).1) := by
  refine ⟨snd_run_eval g e, fun hNone => ?_⟩
  have hDraws := draws_eq_zero_iff.mpr hNone
  have hGame : (e.eval.run g).2 = g := (snd_run_eval g e).trans (afterDraws_eq_self hDraws)
  refine ⟨hGame, by rw [hGame], fun random => ?_⟩
  have hSame := congrArg Prod.fst (run_eval_withRandom hDraws random)
  exact hSame

theorem two_draws_or_none : ∃ g, create duelSettings ["a", "b"] 7 = .ok g ∧
    ((Expr.binary .sub (.identifier "random") (.identifier "random")).eval.run g).2 =
      { g with random := nextRandom (nextRandom g.random) } ∧
    ((Expr.binary .sub .opponent (.identifier "budget")).eval.run g).2 = g := by
  obtain ⟨g, hCreate, hUnbound⟩ := exists_eq_ok_of_any
    (r := create duelSettings ["a", "b"] 7) (P := fun g => g.actor.bindings["random"]?.isNone)
    (by decide +kernel)
  have hTwo : g.draws (.binary .sub (.identifier "random") (.identifier "random")) = 2 := by
    rw [Option.isNone_iff_eq_none] at hUnbound
    simp [draws, hUnbound, Expr.identifiers]
  have hDrawn := (evaluation_only_draws g
    (.binary .sub (.identifier "random") (.identifier "random"))).1
  rw [hTwo, Function.iterate_succ_apply, Function.iterate_one] at hDrawn
  have hNone := (evaluation_only_draws g (.binary .sub .opponent (.identifier "budget"))).2
  exact ⟨g, hCreate, hDrawn, (hNone (.inr (by decide))).1⟩

end Game

end CityCrew
