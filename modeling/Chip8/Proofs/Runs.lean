/-
# Runs

What a host does to an emulator, or to a console, is a list of operations.  `Step.iterate`
performs such a list and keeps all that the operations answer and cause:

* `iterate_append`: two lists performed one after the other are one list performed;
* `iterate_invariant`: what every operation preserves holds at the end;
* `answers_of_iterate`: what every operation answers where the invariant holds is answered all
  along.

`Emulator.Reachable` is every state to which a host can bring an emulator that was just switched
on or set up; `Reachable.invariant` is the induction over it.

A scheduler performs no operations but activities: `Emulator.act` is one of them, and
`Firing.next_eq` says that a turn of its loop is one.
-/
import Chip8.Emulator.Setup
import Chip8.Host.Terminal
import Chip8.Scheduler.Console

namespace Chip8

/-! ## 1. Lists of operations -/

namespace Step

variable {σ ι α : Type}

/-- Performs operations one after the other: all the answers, the last state, all the events. -/
def iterate (op : σ → ι → Step σ α) (s : σ) : List ι → Step σ (List α)
  | [] => ⟨[], s, []⟩
  | i :: is =>
    let first := op s i
    let later := iterate op first.state is
    ⟨first.result :: later.result, later.state, first.events ++ later.events⟩

variable {op : σ → ι → Step σ α}

@[simp] theorem iterate_nil (s : σ) : iterate op s [] = ⟨[], s, []⟩ := rfl

theorem iterate_cons (s : σ) (i : ι) (is : List ι) :
    iterate op s (i :: is)
      = ⟨(op s i).result :: (iterate op (op s i).state is).result,
          (iterate op (op s i).state is).state,
          (op s i).events ++ (iterate op (op s i).state is).events⟩ := rfl

/-- **Runs compose.**  Performing two lists in turn is performing the one made of both. -/
theorem iterate_append (s : σ) (is js : List ι) :
    iterate op s (is ++ js)
      = ⟨(iterate op s is).result ++ (iterate op (iterate op s is).state js).result,
          (iterate op (iterate op s is).state js).state,
          (iterate op s is).events ++ (iterate op (iterate op s is).state js).events⟩ := by
  induction is generalizing s with
  | nil => rfl
  | cons i is ih => simp only [List.cons_append, iterate_cons, ih, List.append_assoc]

/-- One more operation at the end of a run. -/
theorem state_iterate_concat (s : σ) (is : List ι) (i : ι) :
    (iterate op s (is ++ [i])).state = (op (iterate op s is).state i).state := by
  rw [iterate_append]
  rfl

theorem result_iterate_concat (s : σ) (is : List ι) (i : ι) :
    (iterate op s (is ++ [i])).result
      = (iterate op s is).result ++ [(op (iterate op s is).state i).result] := by
  rw [iterate_append]
  rfl

/-- **A run keeps what its operations keep.** -/
theorem iterate_invariant {P : σ → Prop} {is : List ι}
    (hstep : ∀ s i, i ∈ is → P s → P (op s i).state) {s : σ} (hs : P s) :
    P (iterate op s is).state := by
  induction is generalizing s with
  | nil => exact hs
  | cons i is ih =>
    have hfirst : P (op s i).state := hstep s i List.mem_cons_self hs
    exact ih (fun s j hj => hstep s j (List.mem_cons_of_mem i hj)) hfirst

/-- **What is answered all along.**  If the operations keep `P`, and answer with `Q` wherever `P`
holds, then every answer of a run from `P` has `Q`. -/
theorem answers_of_iterate {P : σ → Prop} {Q : α → Prop} {is : List ι}
    (hstep : ∀ s i, i ∈ is → P s → P (op s i).state)
    (hanswer : ∀ s i, i ∈ is → P s → Q (op s i).result) {s : σ} (hs : P s) :
    ∀ a ∈ (iterate op s is).result, Q a := by
  induction is generalizing s with
  | nil => simp
  | cons i is ih =>
    intro a ha
    rcases List.mem_cons.mp ha with rfl | ha
    · exact hanswer s i List.mem_cons_self hs
    · exact ih (fun s j hj => hstep s j (List.mem_cons_of_mem i hj))
        (fun s j hj => hanswer s j (List.mem_cons_of_mem i hj))
        (hstep s i List.mem_cons_self hs) a ha

/-- An outcome with its state seen through a view. -/
def map {τ : Type} (view : σ → τ) (s : Step σ α) : Step τ α := ⟨s.result, view s.state, s.events⟩

end Step

/-! ## 2. Runs of an emulator -/

namespace Emulator

variable {π : Type} [Platform π]

/-- Performs a list of operations on an emulator. -/
def performAll (e : Emulator π) (ops : List Operation) : Step (Emulator π) (List Answer) :=
  Step.iterate perform e ops

theorem state_performAll_concat (e : Emulator π) (ops : List Operation) (op : Operation) :
    (e.performAll (ops ++ [op])).state = ((e.performAll ops).state.perform op).state :=
  Step.state_iterate_concat e ops op

theorem result_performAll_concat (e : Emulator π) (ops : List Operation) (op : Operation) :
    (e.performAll (ops ++ [op])).result
      = (e.performAll ops).result ++ [((e.performAll ops).state.perform op).result] :=
  Step.result_iterate_concat e ops op

/-- A machine just switched on, on a terminal that draws some bytes and then zeros. -/
def scripted (bytes : List UInt8) : Emulator (Terminal (List UInt8)) :=
  ⟨.powerOn {}, .silent bytes⟩

/-- The states of an emulator: just switched on, set up, and whatever operations make of them. -/
inductive Reachable : Emulator π → Prop
  | on (dialect : Dialect) (platform : π) : Reachable ⟨.powerOn dialect, platform⟩
  | built {setup : Setup π} {made : Step (Emulator π) Unit} (h : setup.build = .ok made) :
      Reachable made.state
  | perform {e : Emulator π} (h : Reachable e) (op : Operation) : Reachable (e.perform op).state

/-- **Induction over reachable states.**  A property of machines that holds of a machine just
switched on and survives every operation holds throughout; a setup loads its program with one of
the operations. -/
theorem Reachable.invariant {P : Machine → Prop} (hon : ∀ d, P (.powerOn d))
    (hop : ∀ (e : Emulator π) op, P e.machine → P (e.perform op).state.machine)
    {e : Emulator π} (h : e.Reachable) : P e.machine := by
  induction h with
  | on d p => exact hon d
  | @built setup made h =>
    obtain ⟨platform, dialect, program⟩ := setup
    cases platform with
    | none => simp [Setup.build] at h
    | some platform =>
      cases program with
      | none => simp [Setup.build] at h
      | some program =>
        simp only [Setup.build, Except.ok.injEq] at h
        subst h
        exact hop ⟨.powerOn dialect, platform⟩ (.load program) (hon dialect)
  | perform _ op ih => exact hop _ op ih

/-- Operations lead from reachable states to reachable states. -/
theorem Reachable.performAll {e : Emulator π} (h : e.Reachable) (ops : List Operation) :
    (e.performAll ops).state.Reachable :=
  Step.iterate_invariant (fun _ op _ h => h.perform op) h

/-- **What every tick of a run comes to.**  If the operations keep `P`, and a tick comes to `r`
wherever `P` holds, then all the ticks of a run from `P` come to `r`. -/
theorem ticked_of_performAll {P : Emulator π → Prop} {ops : List Operation} {r : Except Stop Unit}
    (hkeep : ∀ e op, op ∈ ops → P e → P (e.perform op).state)
    (htick : ∀ e, P e → e.tick.result = r) {e : Emulator π} (he : P e) :
    ∀ r', .ticked r' ∈ (e.performAll ops).result → r' = r := by
  have hanswer : ∀ (e : Emulator π) op, op ∈ ops → P e →
      ∀ r', (e.perform op).result = .ticked r' → r' = r := by
    intro e op _ he r' hr'
    cases op with
    | tick => exact (Answer.ticked.inj hr').symm.trans (htick e he)
    | countDown | setKey key down | load program | reset | takeScreen => cases hr'
  intro r' hr'
  exact Step.answers_of_iterate (Q := fun a => ∀ r', a = .ticked r' → r' = r) hkeep hanswer he _
    hr' r' rfl

end Emulator

/-! ## 3. The calls and the notices among the events of a run -/

namespace Event

@[simp] theorem calls_append (es fs : List Event) : calls (es ++ fs) = calls es ++ calls fs :=
  List.filterMap_append ..

@[simp] theorem calls_call (c : Call) (es : List Event) : calls (.call c :: es) = c :: calls es :=
  rfl

@[simp] theorem calls_notice (n : Notice) (es : List Event) : calls (.notice n :: es) = calls es :=
  rfl

@[simp] theorem calls_notices (ns : List Notice) : calls (ns.map .notice) = [] := by
  induction ns with
  | nil => rfl
  | cons n ns ih => exact ih

theorem notices_notices (ns : List Notice) : notices (ns.map .notice) = ns := by
  rw [notices, List.filterMap_map]
  exact List.filterMap_some

end Event

/-! ## 4. One activity of a scheduler -/

section Activities

variable {π : Type} [Platform π]

/-- An activity, with the fault that ends it, if one does. -/
def Emulator.act (e : Emulator π) : Activity → Step (Emulator π) (Option Fault)
  | .timer => ⟨none, e.countDown.state, e.countDown.events⟩
  | .cycle => ⟨Stop.fault? e.tick.result, e.tick.state, e.tick.events⟩

/-- **A turn of the loop is the activity**, with its deadline moved and counted. -/
theorem Firing.next_eq (f : Firing π) (a : Activity) (d : Duration) :
    f.next a d
      = (⟨f.progress.rearm a d, (f.emulator.act a).state, f.tally.count a,
          f.events ++ (f.emulator.act a).events⟩, (f.emulator.act a).result) := by
  cases a <;> rfl

omit [Platform π] in
/-- An activity whose next deadline is out of range leaves the deadlines as they are. -/
@[simp] theorem Firing.progress_strand (f : Firing π) (a : Activity) :
    (f.strand a).progress = f.progress := by
  cases a <;> rfl

end Activities

/-! ## 5. Time passing for a console -/

/-- The time of a list of spans, in nanoseconds. -/
def Duration.total : List Duration → Nat
  | [] => 0
  | d :: ds => d.nanos + Duration.total ds

@[simp] theorem Duration.total_nil : Duration.total [] = 0 := rfl

@[simp] theorem Duration.total_cons (d : Duration) (ds : List Duration) :
    Duration.total (d :: ds) = d.nanos + Duration.total ds := rfl

/-- Lets spans of time pass one after the other. -/
def Console.advanceAll {π : Type} [Platform π] (c : Console π) (ds : List Duration) :
    Step (Console π) (List Passage) :=
  Step.iterate Console.advance c ds

/-! ## 6. Runs of a console -/

namespace Console

/-- A command to a console: one to its scheduler, or an operation on the emulator it drives. -/
inductive Command
  | start
  | stop
  | advance (d : Duration)
  | perform (op : Emulator.Operation)
deriving DecidableEq

/-- What a command answers. -/
inductive Reply
  | done
  | passed (passage : Passage)
  | answered (answer : Emulator.Answer)

variable {π : Type} [Platform π]

/-- Obeys a command. -/
def obey (c : Console π) : Command → Step (Console π) Reply
  | .start => let s := c.start; ⟨.done, s.state, s.events⟩
  | .stop => let s := c.stop; ⟨.done, s.state, s.events⟩
  | .advance d => let s := c.advance d; ⟨.passed s.result, s.state, s.events⟩
  | .perform op => let s := c.perform op; ⟨.answered s.result, s.state, s.events⟩

/-- Obeys a list of commands. -/
def obeyAll (c : Console π) (cmds : List Command) : Step (Console π) (List Reply) :=
  Step.iterate obey c cmds

theorem state_obeyAll_concat (c : Console π) (cmds : List Command) (cmd : Command) :
    (c.obeyAll (cmds ++ [cmd])).state = ((c.obeyAll cmds).state.obey cmd).state :=
  Step.state_iterate_concat c cmds cmd

end Console

end Chip8
