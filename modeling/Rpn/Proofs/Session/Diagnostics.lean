import Rpn.Proofs.Session.Comparison

/-!
# The error sink has no influence

Diagnostics are written to the error sink and nothing is asked of it. A session could have any
other error sink: as long as nothing else differs, all calls come back with the same replies and
leave the same session, again up to the error sink (`tracks_sameButErr`).

What the error sink is given does not depend on it either. Sinks of different capacities that are
given the same bytes hold parts of them from the beginning, each as much as its capacity allows
(`Sink.Keeps`).
-/

namespace Rpn

/-- The first capacity is no larger than the second. -/
def IsWithin (capacity capacity' : Option Nat) : Prop :=
  ∀ n' ∈ capacity', ∃ n ∈ capacity, n ≤ n'

/-- What a capacity allows is found again in what a larger one does. -/
theorem upTo_upTo {capacity capacity' : Option Nat} (within : IsWithin capacity capacity')
    (bytes : List UInt8) : upTo capacity (upTo capacity' bytes) = upTo capacity bytes := by
  cases capacity' with
  | none => rfl
  | some n' =>
    obtain ⟨n, rfl, le⟩ := within n' rfl
    show (bytes.take n').take n = bytes.take n
    rw [List.take_take, Nat.min_eq_left le]

namespace Sink

/-- A sink that takes `capacity` bytes in all and was given `bytes`. -/
structure Keeps (k : Sink) (capacity : Option Nat) (bytes : List UInt8) : Prop where
  held : k.received = upTo capacity bytes
  room : k.room = capacity.map (· - bytes.length)

theorem keeps_nil (capacity : Option Nat) : Keeps { room := capacity } capacity [] := by
  cases capacity with
  | none => exact ⟨rfl, rfl⟩
  | some n => exact ⟨List.take_nil.symm, rfl⟩

variable {k : Sink} {capacity : Option Nat} {bytes : List UInt8}

theorem Keeps.write (keeps : k.Keeps capacity bytes) (text : String) :
    (k.write text).1.Keeps capacity (bytes ++ utf8Bytes text) := by
  constructor
  · rw [received_write, fitting_eq_upTo, keeps.held, keeps.room, upTo_append]
  · rw [room_write, keeps.room, Option.map_map, List.length_append]
    congr 1
    funext n
    exact Nat.sub_sub n _ _

theorem Keeps.report (keeps : k.Keeps capacity bytes) (faults : List Fault) :
    (k.report faults).Keeps capacity (bytes ++ faultBytes faults) := by
  induction faults generalizing k bytes with
  | nil => exact (List.append_nil bytes).symm ▸ keeps
  | cons fault faults ih =>
    have later := ih (keeps.write fault.line)
    rwa [List.append_assoc] at later

end Sink

namespace Session

/-- The session with another error sink. -/
def withErr (s : Session) (k : Sink) : Session := { s with err := k }

/-- The sessions differ in the error sink alone, and both error sinks were given the same, of which
they hold what their capacities allow. -/
structure SameButErr (capacity capacity' : Option Nat) (a b : Session) : Prop where
  same : b = a.withErr b.err
  given : ∃ bytes, a.err.Keeps capacity bytes ∧ b.err.Keeps capacity' bytes

variable {capacity capacity' : Option Nat} {a b : Session}

theorem leaf_withErr (s : Session) (k : Sink) (token : String) :
    (s.withErr k).leaf token =
      ((s.leaf token).1.withErr (k.report (s.response token).faults), (s.leaf token).2) := by
  have response : (s.withErr k).response token = s.response token := rfl
  rw [leaf_eq_respond, leaf_eq_respond, response]
  cases s.response token <;> rfl

theorem define_withErr (s : Session) (k : Sink) (definition : List String) :
    (s.withErr k).define definition =
      ((s.define definition).1.withErr
        (k.report (s.dictionary.afterDefinition definition).2), (s.define definition).2) := by
  refine Prod.ext ?_ ?_
  · rw [fst_define, fst_define]
    rfl
  · rw [snd_define, snd_define]
    rfl

/-- The sessions still differ in the error sink alone after both have reported the same faults. -/
theorem SameButErr.report {a₁ b₁ : Session} {faults : List Fault}
    (h : SameButErr capacity capacity' a b) (err : a₁.err = a.err.report faults)
    (same : b₁ = a₁.withErr (b.err.report faults)) : SameButErr capacity capacity' a₁ b₁ := by
  obtain ⟨bytes, keeps, keeps'⟩ := h.given
  subst same
  exact ⟨rfl, bytes ++ faultBytes faults, err ▸ keeps.report faults, keeps'.report faults⟩

/-- Whatever a session does, another one that differs in the error sink alone does it too. -/
theorem tracks_sameButErr (capacity capacity' : Option Nat) :
    Tracks (SameButErr capacity capacity') where
  dictionary h := by rw [h.same]; rfl
  cursor h := by rw [h.same]; rfl
  flush h := ⟨h, by rw [h.same]; rfl⟩
  advance h := ⟨by rw [h.same]; rfl, h.given⟩
  enter text h := ⟨by rw [h.same]; rfl, h.given⟩
  leaf {a b} token h := by
    have ran := leaf_withErr a b.err token
    rw [← h.same] at ran
    constructor
    · refine h.report ?_ (congrArg Prod.fst ran)
      rw [leaf_eq_respond, err_respond]
    · rw [ran]
  define {a b} definition h := by
    have defined := define_withErr a b.err definition
    rw [← h.same] at defined
    constructor
    · exact h.report (err_define a definition) (congrArg Prod.fst defined)
    · rw [defined]

/-- Two sessions that agree in all but their error sinks, which have been given the same so far,
take every sequence of calls in the same way. They come back with the same replies and agree again
in all but the error sinks after each call. What the smaller error sink holds is then the part of
what the larger one holds that its capacity allows, from the beginning. -/
theorem errSink_no_influence {a b : Session} {capacity capacity' : Option Nat}
    {bytes : List UInt8} (same : b = a.withErr b.err) (keeps : a.err.Keeps capacity bytes)
    (keeps' : b.err.Keeps capacity' bytes) (within : IsWithin capacity capacity') (steps : Nat)
    (calls : List Call) :
    Option.Rel
      (List.Forall₂ fun x y => y.2 = x.2 ∧ y.1 = x.1.withErr y.1.err ∧
        x.1.err.received = upTo capacity y.1.err.received)
      (a.performAll steps calls) (b.performAll steps calls) := by
  have start : SameButErr capacity capacity' a b := ⟨same, bytes, keeps, keeps'⟩
  have tracked := (tracks_sameButErr capacity capacity').performAll start steps calls
  refine rel_imp tracked fun _ _ matched => matched.imp ?_
  rintro x y ⟨⟨same, bytes, keeps, keeps'⟩, reply⟩
  refine ⟨reply, same, ?_⟩
  rw [keeps.held, keeps'.held, upTo_upTo within]

/-- The error sink that takes five bytes is full after the first refusal; the division and the
line that are refused later leave it as it is. -/
theorem errSink_no_influence_five :
    let calls : List Call := [.define ["=", "+", "x"], .evaluate "5 0 /",
      .defineLines ["7 x", "sq 2 ^"], .evaluate "3 sq"]
    let a := fresh .machine 80 {} { room := some 5 }
    let b := fresh .machine 80 {} {}
    ∃ run run', a.performAll 8 calls = some run ∧ b.performAll 8 calls = some run' ∧
      run.map (fun x => (x.1.stack.values, x.1.err.received.length)) =
        [([], 5), ([.int 0, .int 5], 5), ([.int 0, .int 5], 5), ([.int 9, .int 0, .int 5], 5)] ∧
      run'.map (fun y => y.1.err.received.length) = [19, 38, 57, 57] ∧
      List.Forall₂ (fun x y => y.2 = x.2 ∧ y.1 = x.1.withErr y.1.err ∧
        x.1.err.received = upTo (some 5) y.1.err.received) run run' := by
  intro calls a b
  have within : IsWithin (some 5) none := fun n' member => absurd member (Option.not_mem_none n')
  have rel := errSink_no_influence (a := a) (b := b) rfl (Sink.keeps_nil (some 5))
    (Sink.keeps_nil none) within 8 calls
  have evaluated : (a.performAll 8 calls).map
      (List.map fun x => (x.1.stack.values, x.1.err.received.length)) =
      some [([], 5), ([.int 0, .int 5], 5), ([.int 0, .int 5], 5),
        ([.int 9, .int 0, .int 5], 5)] := by
    decide +kernel
  have evaluated' : (b.performAll 8 calls).map (List.map fun y => y.1.err.received.length) =
      some [19, 38, 57, 57] := by
    decide +kernel
  obtain ⟨run, ran, shown⟩ := Option.map_eq_some_iff.mp evaluated
  obtain ⟨run', ran', shown'⟩ := Option.map_eq_some_iff.mp evaluated'
  rw [ran, ran'] at rel
  exact ⟨run, run', ran, ran', shown, shown', Option.rel_some_some.mp rel⟩

end Session

end Rpn
