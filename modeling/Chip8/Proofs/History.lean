/-
# Looking back on a run

Many statements about a run are about what happened last: since the last reset, since a picture was
last handed out.  `Step.moments` lists what was done in a run, each operation with the state in
which it was done, and `Step.since` is the part of such a list that comes after the latest moment of
some kind.

Both grow at the end of the run: `moments_concat`, `since_concat` and `since_concat_of_stop` are
what an induction over a run needs.  What no moment of a run breaks holds throughout
(`moments_invariant`).

A run seen through a view of its states is a run of what is seen, if the view fits every moment of
it (`iterate_map`).
-/
import Mathlib.Data.List.DropRight
import Chip8.Proofs.Runs

namespace Chip8

namespace Step

variable {σ ι α : Type}

/-! ## 1. What was done -/

/-- Something done in a run: in which state, and what. -/
structure Moment (σ ι : Type) where
  state : σ
  input : ι

/-- What is done in a run, in order. -/
def moments (op : σ → ι → Step σ α) (s : σ) : List ι → List (Moment σ ι)
  | [] => []
  | i :: is => ⟨s, i⟩ :: moments op (op s i).state is

theorem moments_concat (op : σ → ι → Step σ α) (s : σ) (is : List ι) (i : ι) :
    moments op s (is ++ [i]) = moments op s is ++ [⟨(iterate op s is).state, i⟩] := by
  induction is generalizing s with
  | nil => rfl
  | cons j is ih =>
    rw [List.cons_append, moments, moments, ih, iterate_cons]
    rfl

/-- The answers of a run are what is answered at its moments. -/
theorem result_iterate (op : σ → ι → Step σ α) (s : σ) (is : List ι) :
    (iterate op s is).result = (moments op s is).map fun x => (op x.state x.input).result := by
  induction is generalizing s with
  | nil => rfl
  | cons i is ih => rw [iterate_cons, moments, List.map_cons, ih]

/-- **What holds throughout a run**: at its moments and at its end, if no moment breaks it. -/
theorem moments_invariant {op : σ → ι → Step σ α} {P : σ → Prop} {s : σ} {is : List ι}
    (h : ∀ x ∈ moments op s is, P x.state → P (op x.state x.input).state) (hs : P s) :
    (∀ x ∈ moments op s is, P x.state) ∧ P (iterate op s is).state := by
  induction is generalizing s with
  | nil => exact ⟨by simp [moments], hs⟩
  | cons i is ih =>
    obtain ⟨hfirst, hlater⟩ := List.forall_mem_cons.mp h
    obtain ⟨hmoments, hend⟩ := ih hlater (hfirst hs)
    exact ⟨List.forall_mem_cons.mpr ⟨hs, hmoments⟩, hend⟩

/-- **Runs through a view.**  If a view takes each operation of a run to another one, then it takes
the run to the run of those. -/
theorem iterate_map {τ : Type} {op : σ → ι → Step σ α} {op' : τ → ι → Step τ α} {view : σ → τ}
    {s : σ} {is : List ι}
    (h : ∀ x ∈ moments op s is, op' (view x.state) x.input = (op x.state x.input).map view) :
    iterate op' (view s) is = (iterate op s is).map view := by
  induction is generalizing s with
  | nil => rfl
  | cons i is ih =>
    obtain ⟨hfirst, hlater⟩ := List.forall_mem_cons.mp h
    have hrest := ih hlater
    rw [iterate_cons, hfirst]
    simp only [map] at hrest ⊢
    rw [hrest, iterate_cons]

/-! ## 2. What came after the latest moment of a kind -/

section Since

variable {μ : Type} {stop : μ → Bool}

/-- What comes after the last element with `stop`, or the whole list if there is none. -/
def since (stop : μ → Bool) (l : List μ) : List μ := l.rtakeWhile fun x => !stop x

theorem since_concat {l : List μ} {x : μ} (h : stop x = false) :
    since stop (l ++ [x]) = since stop l ++ [x] :=
  List.rtakeWhile_concat_pos _ _ _ (by simp [h])

theorem since_concat_of_stop {l : List μ} {x : μ} (h : stop x = true) :
    since stop (l ++ [x]) = [] :=
  List.rtakeWhile_concat_neg _ _ _ (by simp [h])

theorem since_suffix (stop : μ → Bool) (l : List μ) : since stop l <:+ l :=
  List.rtakeWhile_suffix _ _

theorem since_eq_self {l : List μ} (h : ∀ x ∈ l, stop x = false) : since stop l = l := by
  refine List.rtakeWhile_eq_self_iff.mpr ?_
  intro x hx
  rw [h x hx]
  rfl

end Since

end Step

/-! ## 3. Runs of an emulator -/

namespace Emulator

variable {π : Type} [Platform π]

/-- A moment of a run of an emulator. -/
abbrev Moment (π : Type) := Step.Moment (Emulator π) Operation

/-- What is done in a run of an emulator, in order. -/
def history (e : Emulator π) (ops : List Operation) : List (Moment π) := Step.moments perform e ops

theorem history_concat (e : Emulator π) (ops : List Operation) (op : Operation) :
    e.history (ops ++ [op]) = e.history ops ++ [⟨(e.performAll ops).state, op⟩] :=
  Step.moments_concat perform e ops op

/-- Whether the machine was reset. -/
def Moment.isReset (x : Moment π) : Bool := x.input = .reset

end Emulator

/-! ## 4. Runs of a console -/

namespace Console

variable {π : Type} [Platform π]

/-- A moment of a run of a console. -/
abbrev Moment (π : Type) := Step.Moment (Console π) Command

/-- What is done in a run of a console, in order. -/
def history (c : Console π) (cmds : List Command) : List (Moment π) := Step.moments obey c cmds

theorem history_concat (c : Console π) (cmds : List Command) (cmd : Command) :
    c.history (cmds ++ [cmd]) = c.history cmds ++ [⟨(c.obeyAll cmds).state, cmd⟩] :=
  Step.moments_concat obey c cmds cmd

end Console

end Chip8
