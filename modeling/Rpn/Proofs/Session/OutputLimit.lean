import Rpn.Proofs.Session.Comparison
import Rpn.Proofs.Session.Failure

/-!
# Output that is cut off

A session whose output sink has room for so many bytes does what it does on a sink without a
limit, for as long as its output fits (`Fits.leaf`). The first text that does not fit is cut off
and ends the statement. The leaf that has written it has taken effect by then, and no leaf after
it is met.

A sink that takes everything but does not hand it on is noticed at the end of a statement alone,
and changes what the statement comes back with and nothing more (`statement_withFlush`).

A session writes a text in one go. To write it in parts, up to the first that is refused, comes to
the same (`Sink.writeEach_eq`).
-/

namespace Rpn

theorem utf8Bytes_append (text text' : String) :
    utf8Bytes (text ++ text') = utf8Bytes text ++ utf8Bytes text' := by
  rw [utf8Bytes, String.toList_append, List.flatMap_append]
  rfl

namespace Sink

variable {k : Sink} {text : String}

/-- The sink with another room. -/
def withRoom (k : Sink) (room : Option Nat) : Sink := { k with room }

/-- Write texts one after the other, up to the first that is refused. -/
def writeEach (k : Sink) : List String → Sink × Option String
  | [] => (k, none)
  | text :: texts =>
    match (k.write text).2 with
    | none => (k.write text).1.writeEach texts
    | some reason => ((k.write text).1, some reason)

theorem fitting_nil (k : Sink) : k.fitting [] = [] := by
  rw [fitting]
  cases k.room with
  | none => rfl
  | some n => exact List.take_nil

/-- A text is refused if there is less room than it takes. -/
theorem write_snd_of_some {n : Nat} (limited : k.room = some n) (text : String) :
    (k.write text).2 = if n < (utf8Bytes text).length then some k.refusal else none := by
  simp [write, fitting, limited]

theorem write_append_fst (k : Sink) (text text' : String) :
    (k.write (text ++ text')).1.received = ((k.write text).1.write text').1.received ∧
      (k.write (text ++ text')).1.room = ((k.write text).1.write text').1.room := by
  constructor
  · simp only [received_write, fitting_eq_upTo, room_write, utf8Bytes_append, upTo_append,
      List.append_assoc]
  · simp only [room_write, utf8Bytes_append, List.length_append, Option.map_map]
    congr 1
    funext n
    exact (Nat.sub_sub n _ _).symm

/-- A sink that has refused a text has no room left. -/
theorem room_of_write {reason : String} (refused : (k.write text).2 = some reason) :
    (k.write text).1.room = some 0 := by
  cases room : k.room with
  | none => cases refused.symm.trans (write_snd_of_none room text)
  | some n =>
    rw [write_snd_of_some room] at refused
    have less : n < (utf8Bytes text).length := (Option.ite_none_right_eq_some.mp refused).1
    rw [room_write, room, Option.map_some, Nat.sub_eq_zero_of_le less.le]

theorem write_append_snd (k : Sink) (text text' : String) :
    (k.write (text ++ text')).2 = ((k.write text).2).or ((k.write text).1.write text').2 := by
  cases room : k.room with
  | none =>
    have unlimited : (k.write text).1.room = none := by rw [room_write, room, Option.map_none]
    rw [write_snd_of_none room, write_snd_of_none room, write_snd_of_none unlimited, Option.or_none]
  | some n =>
    have left : (k.write text).1.room = some (n - (utf8Bytes text).length) := by
      rw [room_write, room, Option.map_some]
    rw [write_snd_of_some room, write_snd_of_some room, write_snd_of_some left, refusal_write,
      utf8Bytes_append, List.length_append]
    split_ifs <;> first | rfl | omega

/-- A sink that is full takes nothing. -/
theorem received_write_of_full (full : k.room = some 0) (text : String) :
    (k.write text).1.received = k.received := by
  rw [received_write, fitting_eq_upTo, full]
  exact List.append_nil k.received

/-- To write texts one after the other comes to the same as to write them together. -/
theorem writeEach_eq (k : Sink) (texts : List String) :
    (k.writeEach texts).1.received = (k.write (String.join texts)).1.received ∧
      (k.writeEach texts).1.room = (k.write (String.join texts)).1.room ∧
      (k.writeEach texts).2 = (k.write (String.join texts)).2 := by
  induction texts generalizing k with
  | nil =>
    have nothing : utf8Bytes (String.join []) = [] := rfl
    refine ⟨?_, ?_, ?_⟩
    · rw [received_write, nothing, fitting_nil, List.append_nil]
      rfl
    · rw [room_write, nothing]
      exact (congrFun Option.map_id k.room).symm
    · rw [write, nothing, fitting_nil]
      rfl
  | cons text texts ih =>
    obtain ⟨received, room⟩ := write_append_fst k text (String.join texts)
    rw [String.join_cons, received, room, write_append_snd, writeEach]
    cases refused : (k.write text).2 with
    | none => exact ih (k.write text).1
    | some reason =>
      have full := room_of_write refused
      rw [received_write_of_full full, room_write _ (String.join texts), full]
      exact ⟨rfl, congrArg some (Nat.zero_sub _).symm, rfl⟩

/-- Where there is room for a text, the sink does what it does without a limit. -/
theorem write_withRoom_of_le (unlimited : k.room = none) {n : Nat}
    (enough : (utf8Bytes text).length ≤ n) :
    (k.withRoom (some n)).write text =
      ((k.write text).1.withRoom (some (n - (utf8Bytes text).length)), none) := by
  have whole : (k.withRoom (some n)).fitting (utf8Bytes text) = utf8Bytes text :=
    List.take_of_length_le enough
  have taken : k.fitting (utf8Bytes text) = utf8Bytes text := by
    rw [fitting_eq_upTo, unlimited]
    rfl
  have accepted := write_snd_of_some (k := k.withRoom (some n)) rfl text
  rw [if_neg (Nat.not_lt.mpr enough)] at accepted
  refine Prod.ext ?_ accepted
  rw [write, write, whole, taken]
  rfl

end Sink

namespace Session

/-- The session with another output sink. -/
def withOut (s : Session) (k : Sink) : Session := { s with out := k }

/-- The session on an output sink that has room for so many more bytes, or for all there are. -/
def withRoom (s : Session) (room : Option Nat) : Session := s.withOut (s.out.withRoom room)

/-- The session on an output sink that takes all bytes, but may fail to hand them on. -/
def withFlush (s : Session) (failure : Option String) : Session :=
  s.withOut { s.out with flushFailure := failure }

@[simp] theorem dictionary_withOut (s : Session) (k : Sink) :
    (s.withOut k).dictionary = s.dictionary := rfl

theorem define_withOut (s : Session) (k : Sink) (definition : List String) :
    ((s.withOut k).define definition).1 = (s.define definition).1.withOut k := by
  rw [fst_define, fst_define]
  rfl

theorem out_conclude (s : Session) (text : String) (outcome : Except Fault Control) :
    (s.conclude text outcome).1.out = s.out := by
  obtain ⟨-, stopped⟩ | ⟨-, -, defines⟩ | ⟨-, -, flushes⟩ := conclude_cases text outcome
  · rw [stopped]
  · rw [defines, out_define]
  · rw [flushes]
    rfl

theorem conclude_withRoom (s : Session) (room : Option Nat) (text : String)
    (outcome : Except Fault Control) :
    (s.withRoom room).conclude text outcome =
      ((s.conclude text outcome).1.withRoom room, (s.conclude text outcome).2) := by
  obtain ⟨-, stopped⟩ | ⟨-, -, defines⟩ | ⟨-, -, flushes⟩ := conclude_cases text outcome
  · rw [stopped, stopped]
  · have out := out_define s ((tokens text).drop s.cursor)
    rw [defines, defines, withRoom, define_withOut, withRoom, out]
    rfl
  · rw [flushes, flushes]
    rfl

section Print

variable {s : Session} {text : String}

theorem print_snd_of_none (accepted : (s.out.write text).2 = none) :
    (s.print text).2 = .ok .proceed := by
  rw [print, accepted]

theorem print_snd_of_some {reason : String} (refused : (s.out.write text).2 = some reason) :
    (s.print text).2 = .error (.inputOutput reason) := by
  rw [print, refused]

end Print

section Growth

/-- A leaf leaves in place what the output sink has received. -/
theorem received_prefix_leaf (s : Session) (token : String) :
    s.out.received <+: (s.leaf token).1.out.received := by
  rw [leaf_eq_respond]
  cases s.response token with
  | shows stack text => exact ⟨_, (Sink.received_write s.out text).symm⟩
  | silent | refuses | quits => exact List.prefix_rfl

variable {s s' : Session} {names : List String} {trace : List Dispatch}
  {outcome : Except Fault Control}

theorem Evaluates.received_prefix (h : Evaluates s names trace s' outcome) :
    s.out.received <+: s'.out.received :=
  (h.preserves (P := fun s₁ => s.out.received <+: s₁.out.received)
    (fun s₁ token before => before.trans (received_prefix_leaf s₁ token))
    (fun _ before => before) List.prefix_rfl).1

/-- Nothing of what has been written when a leaf is done with is taken back later. -/
theorem Evaluates.received_prefix_of_mem (h : Evaluates s names trace s' outcome) :
    ∀ d ∈ trace, (d.session.leaf d.token).1.out.received <+: s'.out.received := by
  induction h with
  | nil s => exact fun d member => absurd member List.not_mem_nil
  | leaf _ ran after ih =>
    refine List.forall_mem_cons.mpr ⟨?_, ih⟩
    rw [ran]
    exact after.received_prefix
  | leafStops _ ran _ =>
    refine List.forall_mem_singleton.mpr ?_
    simp only [ran, List.prefix_rfl]
  | word _ _ after ihInside ihAfter =>
    refine List.forall_mem_append.mpr ⟨?_, ihAfter⟩
    exact fun d member => (ihInside d member).trans after.received_prefix
  | wordStops _ _ _ ih => exact ih

end Growth

/-- With room for `n` bytes the session `s` stops in `r` while it evaluates a statement. Without a
limit it meets the leaves `before` and then `d`, where the first byte is written that there is no
room for. -/
structure StopsAt (s : Session) (text : String) (n : Nat) (r : Session) (before : List Dispatch)
    (d : Dispatch) : Prop where
  below : d.session.out.received.length ≤ s.out.received.length + n
  past : s.out.received.length + n < (d.session.leaf d.token).1.out.received.length
  /-- The leaf has taken effect, and nothing else has changed since it was met. -/
  effect : r = (d.session.leaf d.token).1.withOut r.out
  /-- It is the last leaf that is met. -/
  last : ∃ trace,
    (s.withRoom (some n)).Completes text trace r (.error (.inputOutput s.out.refusal)) ∧
      trace.map Dispatch.token = (before ++ [d]).map Dispatch.token

section Limit

variable {capacity : Nat} {a b : Session}

/-- The output sink of `a` has no limit and that of `b` takes `capacity` bytes in all, which has
been enough so far. -/
structure Fits (capacity : Nat) (a b : Session) : Prop where
  unlimited : a.out.room = none
  within : a.out.received.length ≤ capacity
  same : b = a.withRoom (some (capacity - a.out.received.length))

/-- The result `x` comes with more output than `capacity`, and `y` is what becomes of it where
this is cut off. -/
structure CutsOff (capacity : Nat) (x y : Session × Except Fault Control) : Prop where
  past : capacity < x.1.out.received.length
  same : y.1 = x.1.withOut y.1.out
  received : y.1.out.received = x.1.out.received.take capacity
  fails : y.2 = .error (.inputOutput x.1.out.refusal)

theorem Fits.print (fits : Fits capacity a b) (text : String) :
    Matches (Fits capacity) (a.print text) (b.print text) ∨
      CutsOff capacity (a.print text) (b.print text) := by
  obtain ⟨unlimited, within, rfl⟩ := fits
  have received : (a.print text).1.out.received = a.out.received ++ utf8Bytes text := by
    rw [Session.print, Sink.received_write, Sink.fitting_eq_upTo, unlimited]
    rfl
  have room : (a.print text).1.out.room = none := by
    rw [Session.print, Sink.room_write, unlimited, Option.map_none]
  have accepted := Sink.write_snd_of_none unlimited text
  by_cases enough : (utf8Bytes text).length ≤ capacity - a.out.received.length
  · have written := Sink.write_withRoom_of_le unlimited enough
    refine .inl ⟨⟨room, ?_, ?_⟩, ?_⟩
    · rw [received, List.length_append]
      omega
    · rw [received, List.length_append, ← Nat.sub_sub]
      exact congrArg (fun x => a.withOut x.1) written
    · rw [print_snd_of_none accepted]
      exact print_snd_of_none (congrArg Prod.snd written)
  · have less := Nat.not_le.mp enough
    have refused := Sink.write_snd_of_some
      (k := a.out.withRoom (some (capacity - a.out.received.length))) rfl text
    rw [if_pos less] at refused
    refine .inr ⟨?_, rfl, ?_, print_snd_of_some refused⟩
    · rw [received, List.length_append]
      omega
    · rw [received, List.take_append, List.take_of_length_le within]
      exact Sink.received_write (a.out.withRoom (some (capacity - a.out.received.length))) text

theorem Fits.respond (fits : Fits capacity a b) (r : Response) :
    Matches (Fits capacity) (a.respond r) (b.respond r) ∨
      CutsOff capacity (a.respond r) (b.respond r) := by
  cases r with
  | shows stack text =>
    have shown : Fits capacity { a with stack } { b with stack } :=
      ⟨fits.unlimited, fits.within, by rw [fits.same]; rfl⟩
    exact shown.print text
  | silent stack => exact .inl ⟨⟨fits.unlimited, fits.within, by rw [fits.same]; rfl⟩, rfl⟩
  | refuses stack fault =>
    exact .inl ⟨⟨fits.unlimited, fits.within, by rw [fits.same]; rfl⟩, rfl⟩
  | quits => exact .inl ⟨fits, rfl⟩

/-- With limited room a leaf does what it does without a limit, or its output is cut off. -/
theorem Fits.leaf (fits : Fits capacity a b) (token : String) :
    Matches (Fits capacity) (a.leaf token) (b.leaf token) ∨
      CutsOff capacity (a.leaf token) (b.leaf token) := by
  have response : b.response token = a.response token := by
    rw [fits.same]
    rfl
  rw [leaf_eq_respond, leaf_eq_respond, response]
  exact fits.respond _

/-- Tokens are evaluated with limited room as without a limit, or they are cut off at a leaf. -/
theorem Evaluates.fits_or_cutsOff {a' : Session} {names : List String} {trace : List Dispatch}
    {outcome : Except Fault Control} (h : Evaluates a names trace a' outcome)
    (fits : Fits capacity a b) :
    (∃ trace' b', Evaluates b names trace' b' outcome ∧ Fits capacity a' b' ∧
      trace'.map Dispatch.token = trace.map Dispatch.token) ∨
    ∃ before d after e, trace = before ++ d :: after ∧
      PartsAt (Fits capacity) (fun a b token => CutsOff capacity (a.leaf token) (b.leaf token))
        b names before d e := by
  refine h.keeps_or_parts ?_ ?_ (fun token fits => fits.leaf token) ?_ fits
  · intro a b fits
    rw [fits.same]
    rfl
  · intro a b fits
    exact ⟨fits.unlimited, fits.within, by rw [fits.same]; rfl⟩
  · intro a b token cut proceeds
    cases proceeds.symm.trans cut.fails

theorem fits_enter (s : Session) (text : String) (n : Nat) :
    Fits (s.out.received.length + n) ((s.withRoom none).enter text)
      ((s.withRoom (some n)).enter text) := by
  refine ⟨rfl, Nat.le_add_right _ _, ?_⟩
  have left : s.out.received.length + n - ((s.withRoom none).enter text).out.received.length = n :=
    Nat.add_sub_cancel_left s.out.received.length n
  rw [left]
  rfl

/-- If all output has fitted, a statement ends with limited room as it does without a limit. -/
theorem Fits.conclude {n : Nat} {start written : List UInt8} {s' : Session} {text : String}
    {inner outcome : Except Fault Control} (fits : Fits (start.length + n) a b)
    (total : start ++ written = a.out.received)
    (concluded : a.conclude text inner = (s', outcome)) :
    written.length ≤ n ∧
      b.conclude text inner = (s'.withRoom (some (n - written.length)), outcome) := by
  have length : a.out.received.length = start.length + written.length :=
    total ▸ List.length_append
  have left : start.length + n - a.out.received.length = n - written.length := by
    rw [length, Nat.add_sub_add_left]
  constructor
  · have within := fits.within
    omega
  · rw [fits.same, conclude_withRoom, concluded, left]

/-- Where the output is cut off, the limited sink has received what comes first of all output. -/
theorem CutsOff.received_eq {n : Nat} {start written : List UInt8} {s s' : Session}
    {names : List String} {trace : List Dispatch} {outcome : Except Fault Control} {d : Dispatch}
    {y : Session × Except Fault Control}
    (cut : CutsOff (start.length + n) (d.session.leaf d.token) y)
    (evaluated : Evaluates s names trace s' outcome) (member : d ∈ trace)
    (total : start ++ written = s'.out.received) :
    n < written.length ∧ y.1.out.received = start ++ written.take n := by
  obtain ⟨more, grown⟩ := evaluated.received_prefix_of_mem d member
  constructor
  · have past := cut.past
    have longer := congrArg List.length (grown.trans total.symm)
    rw [List.length_append, List.length_append] at longer
    omega
  · have taken : (start ++ written).take (start.length + n) = start ++ written.take n :=
      List.take_length_add_append n
    rw [cut.received, ← taken, total, ← grown, List.take_append_of_le_length cut.past.le]

/-- If the evaluation of a statement parts at a leaf, it stops there. -/
theorem PartsAt.stopsAt {s e : Session} {text : String} {n : Nat} {before after : List Dispatch}
    {d : Dispatch} {s₁ : Session} {outcome : Except Fault Control}
    (evaluated : Evaluates ((s.withRoom none).enter text) (leadingTokens text)
      (before ++ d :: after) s₁ outcome)
    (parts : PartsAt (Fits (s.out.received.length + n))
      (fun a b token => CutsOff (s.out.received.length + n) (a.leaf token) (b.leaf token))
      ((s.withRoom (some n)).enter text) (leadingTokens text) before d e) :
    s.StopsAt text n (e.leaf d.token).1 before d := by
  have member : d ∈ before ++ d :: after := List.mem_append_right _ List.mem_cons_self
  have reason : (d.session.leaf d.token).1.out.refusal = s.out.refusal :=
    (refusal_leaf d.session d.token).trans (evaluated.reasons_eq.2 d member)
  have fails := parts.stops.fails
  rw [reason] at fails
  obtain ⟨trace, limited, met⟩ := parts.evaluates
  rw [fails] at limited
  refine ⟨parts.related.within, parts.stops.past, parts.stops.same, trace, ⟨_, _, limited, ?_⟩, met⟩
  exact conclude_of_ne _ text (by simp)

end Limit

section Flush

variable {reason : String}

/-- What a statement comes back with when its output cannot be handed on. -/
def unflushed (reason text : String) : Except Fault Control → Except Fault Control
  | .ok .proceed =>
    if definitionMarker ∈ tokens text then .ok .proceed else .error (.inputOutput reason)
  | outcome => outcome

theorem unflushed_of_ne (reason text : String) {outcome : Except Fault Control}
    (stops : outcome ≠ .ok .proceed) : unflushed reason text outcome = outcome := by
  unfold unflushed
  split
  · exact absurd rfl stops
  · rfl

/-- The output sink of `a` hands everything on and that of `b`, which is the same otherwise, does
not. -/
structure HandsOn (reason : String) (a b : Session) : Prop where
  flush : a.out.flushFailure = none
  same : b = a.withFlush (some reason)

theorem leaf_withFlush (s : Session) (failure : Option String) (token : String) :
    (s.withFlush failure).leaf token =
      ((s.leaf token).1.withFlush failure, (s.leaf token).2) := by
  have response : (s.withFlush failure).response token = s.response token := rfl
  rw [leaf_eq_respond, leaf_eq_respond, response]
  cases s.response token <;> rfl

theorem inStep_handsOn (reason : String) : InStep (HandsOn reason) where
  dictionary h := by rw [h.same]; rfl
  advance h := ⟨h.flush, by rw [h.same]; rfl⟩
  leaf {a b} token h := by
    have ran := leaf_withFlush a (some reason) token
    rw [← h.same] at ran
    rw [ran]
    exact ⟨⟨(flushFailure_leaf a token).trans h.flush, rfl⟩, rfl⟩

theorem HandsOn.conclude {a b : Session} (h : HandsOn reason a b) (text : String)
    (outcome : Except Fault Control) :
    b.conclude text outcome =
      ((a.conclude text outcome).1.withFlush (some reason),
        unflushed reason text (a.conclude text outcome).2) := by
  obtain ⟨flush, rfl⟩ := h
  obtain ⟨stops, stopped⟩ | ⟨-, marked, defines⟩ | ⟨-, unmarked, flushes⟩ :=
    conclude_cases text outcome
  · rw [stopped, stopped, unflushed_of_ne reason text stops]
  · have out := out_define a ((tokens text).drop a.cursor)
    rw [defines, defines, withFlush, define_withOut, withFlush, out, unflushed, if_pos marked]
    rfl
  · have handed : a.flush = (a, .ok .proceed) := by rw [Session.flush, flush]
    rw [flushes, flushes, handed, unflushed, if_neg unmarked]
    rfl

/-- That output cannot be handed on changes what a statement comes back with, if all its tokens
are evaluated and no definition is met, and nothing else. -/
theorem statement_withFlush (s : Session) (steps : Nat) (text reason : String) :
    (s.withFlush (some reason)).statement steps text =
      ((s.withFlush none).statement steps text).map fun (s', outcome) =>
        (s'.withFlush (some reason), unflushed reason text outcome) := by
  have start : HandsOn reason ((s.withFlush none).enter text)
      ((s.withFlush (some reason)).enter text) := ⟨rfl, rfl⟩
  have inStep := (inStep_handsOn reason).resume start steps (leadingTokens text) []
  rw [statement_eq, statement_eq, Option.map_map]
  generalize resume steps ((s.withFlush none).enter text) (leadingTokens text) [] = x at inStep ⊢
  generalize resume steps ((s.withFlush (some reason)).enter text) (leadingTokens text) [] = y
    at inStep ⊢
  cases inStep with
  | none => rfl
  | some matched =>
    rename_i p q
    obtain ⟨a, outcome⟩ := p
    obtain ⟨b, outcome'⟩ := q
    obtain ⟨handsOn, same⟩ := matched
    obtain rfl : outcome' = outcome := same
    exact congrArg some (handsOn.conclude text outcome')

end Flush

/-- Compare a statement on an output sink with room for `n` bytes with the same statement on one
without a limit, from the same session. The limited sink receives the first `n` of the bytes that
are written. If they all fit, the statements end in the same way. Otherwise the limited one fails
for the reason of its sink, with the dictionary as it was, and leaves the session that the other
one had when the first byte was written that does not fit.

A sink that does not hand its bytes on changes only what comes back from a statement of which all
tokens are evaluated, and a text may be written in parts. -/
theorem output_failure_clean_prefix :
    (∀ (s s' : Session) (n steps : Nat) (text : String) (outcome : Except Fault Control),
      (s.withRoom none).statement steps text = some (s', outcome) →
        ∃ written steps' r outcome',
          s'.out.received = s.out.received ++ written ∧
          (s.withRoom (some n)).statement steps' text = some (r, outcome') ∧
          r.out.received = s.out.received ++ written.take n ∧
          (written.length ≤ n →
            r = s'.withRoom (some (n - written.length)) ∧ outcome' = outcome) ∧
          (n < written.length →
            outcome' = .error (.inputOutput s.out.refusal) ∧ r.dictionary = s.dictionary ∧
            ∃ before d after, (s.withRoom none).Completes text (before ++ d :: after) s' outcome ∧
              s.StopsAt text n r before d)) ∧
      (∀ (s : Session) (steps : Nat) (text reason : String),
        (s.withFlush (some reason)).statement steps text =
          ((s.withFlush none).statement steps text).map fun (s', outcome) =>
            (s'.withFlush (some reason), unflushed reason text outcome)) ∧
      ∀ (k : Sink) (texts : List String),
        (k.writeEach texts).1.received = (k.write (String.join texts)).1.received ∧
          (k.writeEach texts).1.room = (k.write (String.join texts)).1.room ∧
          (k.writeEach texts).2 = (k.write (String.join texts)).2 := by
  refine ⟨?_, statement_withFlush, Sink.writeEach_eq⟩
  intro s s' n steps text outcome result
  obtain ⟨trace, completes⟩ := exists_statement_iff.mp ⟨steps, result⟩
  have ⟨s₁, inner, evaluated, concluded⟩ := completes
  have out : s'.out = s₁.out := by
    have kept := out_conclude s₁ text inner
    rwa [concluded] at kept
  obtain ⟨written, total⟩ := evaluated.received_prefix
  have output : s'.out.received = s.out.received ++ written :=
    (congrArg Sink.received out).trans total.symm
  obtain ⟨trace', b, limited, fits, -⟩ | ⟨before, d, after, e, rfl, parts⟩ :=
    evaluated.fits_or_cutsOff (fits_enter s text n)
  · obtain ⟨enough, ends⟩ := fits.conclude total concluded
    obtain ⟨steps', result'⟩ := exists_statement_iff.mpr ⟨_, _, _, limited, ends⟩
    refine ⟨written, steps', _, _, output, result', ?_, fun _ => ⟨rfl, rfl⟩, ?_⟩
    · rw [List.take_of_length_le enough]
      exact output
    · exact fun less => absurd enough (Nat.not_le.mpr less)
  · have stops := parts.stopsAt evaluated
    have member : d ∈ before ++ d :: after := List.mem_append_right _ List.mem_cons_self
    obtain ⟨less, received⟩ := parts.stops.received_eq evaluated member total
    obtain ⟨trace', limited, -⟩ := stops.last
    obtain ⟨steps', result'⟩ := exists_statement_iff.mpr ⟨_, limited⟩
    refine ⟨written, steps', _, _, output, result', received, ?_, fun _ => ⟨rfl, ?_, ?_⟩⟩
    · exact fun enough => absurd less (Nat.not_lt.mpr enough)
    · rw [parts.stops.same, dictionary_withOut, dictionary_leaf]
      exact evaluated.dictionary_eq.2 d member
    · exact ⟨before, d, after, completes, stops⟩

/-- There is room for the first line and one digit of the second. The operator that writes the
second line is the last to run, so the sum is still on the stack. -/
theorem output_failure_clean_prefix_six :
    let s := fresh .machine 80 { refusal := "sink full" } {}
    ∃ s' r steps', (s.withRoom none).statement 5 "3 25 . + ," = some (s', .ok .proceed) ∧
      (s'.stack.values, s'.out.received) = ([], utf8Bytes "3 25\n28\n\n") ∧
      (s.withRoom (some 6)).statement steps' "3 25 . + ," =
        some (r, .error (.inputOutput "sink full")) ∧
      (r.stack.values, r.out.received) = ([.int 28], utf8Bytes "3 25\n2") ∧
      (∃ before d, s.StopsAt "3 25 . + ," 6 r before d) ∧
      ((s.withFlush (some "pipe closed")).statement 5 "3 25 . + ,").map Prod.snd =
        some (.error (.inputOutput "pipe closed")) := by
  intro s
  obtain ⟨limit, flush, -⟩ := output_failure_clean_prefix
  have evaluated : ((s.withRoom none).statement 5 "3 25 . + ,").map
      (fun r => (r.2, r.1.stack.values, r.1.out.received)) =
        some (.ok .proceed, [], utf8Bytes "3 25\n28\n\n") := by
    decide +kernel
  obtain ⟨⟨s', outcome⟩, result, shown⟩ := Option.map_eq_some_iff.mp evaluated
  obtain ⟨rfl, final⟩ := Prod.mk.inj shown
  obtain ⟨written, steps', r, outcome', output, result', received, -, cut⟩ :=
    limit s s' 6 5 "3 25 . + ," (.ok .proceed) result
  obtain rfl : utf8Bytes "3 25\n28\n\n" = written := (Prod.mk.inj final).2.symm.trans output
  obtain ⟨rfl, -, before, d, after, -, stops⟩ := cut (by decide +kernel)
  have evaluated' : ((s.withRoom (some 6)).statement 5 "3 25 . + ,").map
      (fun r => r.1.stack.values) = some [.int 28] := by
    decide +kernel
  obtain ⟨⟨r', _⟩, stopped, stack⟩ := Option.map_eq_some_iff.mp evaluated'
  have same := (statement_mono (le_max_left 5 steps') stopped).symm.trans
    (statement_mono (le_max_right 5 steps') result')
  obtain rfl : r' = r := (Prod.mk.inj (Option.some.inj same)).1
  have first : (utf8Bytes "3 25\n28\n\n").take 6 = utf8Bytes "3 25\n2" := by decide +kernel
  have flushed : ((s.withFlush none).statement 5 "3 25 . + ,").map
      (fun r => unflushed "pipe closed" "3 25 . + ," r.2) =
        some (.error (.inputOutput "pipe closed")) := by
    decide +kernel
  have left : (r'.stack.values, r'.out.received) = ([.int 28], utf8Bytes "3 25\n2") :=
    Prod.ext stack (received.trans first)
  refine ⟨s', r', steps', result, final, result', left, ⟨before, d, stops⟩, ?_⟩
  rw [flush, Option.map_map]
  exact flushed

end Session

end Rpn
