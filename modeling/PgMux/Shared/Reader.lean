import Mathlib.Data.List.Basic
import Mathlib.Tactic.Common

set_option autoImplicit false

/-!
# Reading messages out of a growing buffer

A reader takes one message from the front of a buffer, asks for more input or fails. `drain` is the
loop that takes messages until the reader gives none, handing each one to a body that may stop it.
-/

structure Reader (B E M : Type) where
  read : List B → Except E (Option (M × List B))
  shrinks : ∀ {buf m rest}, read buf = .ok (some (m, rest)) → rest.length < buf.length

namespace Reader

inductive Ended (E R : Type) where
  | drained
  | failed (error : E)
  | stopped (result : R)
deriving DecidableEq

/-- Input that arrives later changes neither a message already complete nor a failure. -/
structure Incremental {B E M : Type} (r : Reader B E M) : Prop where
  message : ∀ {buf m rest}, r.read buf = .ok (some (m, rest)) →
    ∀ more, r.read (buf ++ more) = .ok (some (m, rest ++ more))
  failure : ∀ {buf e}, r.read buf = .error e → ∀ more, r.read (buf ++ more) = .error e

section Drain

variable {B E M S R : Type} (r : Reader B E M) (body : S → M → S × Option R)

-- The fuel bounds the number of messages; `drain` supplies one more than the buffer can hold.
def loop : Nat → S → List B → S × List B × Ended E R
  | 0, s, buf => (s, buf, .drained)
  | fuel + 1, s, buf =>
    match r.read buf with
    | .error e => (s, buf, .failed e)
    | .ok none => (s, buf, .drained)
    | .ok (some (m, rest)) =>
      match body s m with
      | (s, some result) => (s, rest, .stopped result)
      | (s, none) => loop fuel s rest

def drain (s : S) (buf : List B) : S × List B × Ended E R :=
  r.loop body (buf.length + 1) s buf

theorem loop_fuel (fuel more : Nat) (s : S) (buf : List B) (enough : buf.length < fuel) :
    r.loop body (fuel + more) s buf = r.loop body fuel s buf := by
  induction fuel generalizing s buf with
  | zero => omega
  | succ fuel ih =>
    rw [Nat.succ_add]
    simp only [loop]
    split
    · rfl
    · rfl
    · rename_i m rest taken
      have shorter := r.shrinks taken
      split
      · rfl
      · exact ih _ rest (by omega)

variable {body}

theorem drain_failed {s : S} {buf : List B} {e : E} (failed : r.read buf = .error e) :
    r.drain body s buf = (s, buf, .failed e) := by
  simp [drain, loop, failed]

theorem drain_drained {s : S} {buf : List B} (drained : r.read buf = .ok none) :
    r.drain body s buf = (s, buf, .drained) := by
  simp [drain, loop, drained]

theorem drain_stopped {s after : S} {buf rest : List B} {m : M} {result : R}
    (taken : r.read buf = .ok (some (m, rest))) (stopped : body s m = (after, some result)) :
    r.drain body s buf = (after, rest, .stopped result) := by
  simp [drain, loop, taken, stopped]

theorem drain_continued {s after : S} {buf rest : List B} {m : M}
    (taken : r.read buf = .ok (some (m, rest))) (continued : body s m = (after, none)) :
    r.drain body s buf = r.drain body after rest := by
  have shorter := r.shrinks taken
  obtain ⟨spare, length⟩ : ∃ spare, buf.length = rest.length + 1 + spare :=
    ⟨buf.length - (rest.length + 1), by omega⟩
  simp only [drain, loop, taken, continued, length]
  exact r.loop_fuel body _ spare after rest (by omega)

theorem drain_append (incremental : r.Incremental) (s : S) (first more : List B) :
    r.drain body s (first ++ more) =
      match r.drain body s first with
      | (after, rest, .drained) => r.drain body after (rest ++ more)
      | (after, rest, ended) => (after, rest ++ more, ended) := by
  induction size : first.length using Nat.strongRecOn generalizing s first with
  | _ n ih =>
    match read : r.read first with
    | .error e => rw [r.drain_failed read, r.drain_failed (incremental.failure read more)]
    | .ok none => rw [r.drain_drained read]
    | .ok (some (m, mid)) =>
      have later := incremental.message read more
      match handled : body s m with
      | (last, some result) => rw [r.drain_stopped read handled, r.drain_stopped later handled]
      | (next, none) =>
        have shorter := r.shrinks read
        rw [r.drain_continued read handled, r.drain_continued later handled]
        exact ih mid.length (by omega) next mid rfl

variable (body)

/-- A part of the loop in which the body never stops: the messages it took, and what it left. -/
inductive Passes : S → List B → List M → S → List B → Prop
  | refl (s : S) (buf : List B) : Passes s buf [] s buf
  | head {s next after : S} {buf mid rest : List B} {m : M} {ms : List M}
      (taken : r.read buf = .ok (some (m, mid))) (continued : body s m = (next, none))
      (tail : Passes next mid ms after rest) : Passes s buf (m :: ms) after rest

theorem drain_passes (s : S) (buf : List B) :
    ∃ ms after rest, r.Passes body s buf ms after rest ∧
      ((r.read rest = .ok none ∧ r.drain body s buf = (after, rest, .drained)) ∨
        (∃ e, r.read rest = .error e ∧ r.drain body s buf = (after, rest, .failed e)) ∨
        ∃ m left last result, r.read rest = .ok (some (m, left)) ∧
          body after m = (last, some result) ∧ r.drain body s buf = (last, left, .stopped result)) := by
  induction size : buf.length using Nat.strongRecOn generalizing s buf with
  | _ n ih =>
    match read : r.read buf with
    | .error e => exact ⟨[], s, buf, .refl s buf, .inr (.inl ⟨e, read, r.drain_failed read⟩)⟩
    | .ok none => exact ⟨[], s, buf, .refl s buf, .inl ⟨read, r.drain_drained read⟩⟩
    | .ok (some (m, mid)) =>
      match handled : body s m with
      | (last, some result) =>
        exact ⟨[], s, buf, .refl s buf,
          .inr (.inr ⟨m, mid, last, result, read, handled, r.drain_stopped read handled⟩)⟩
      | (next, none) =>
        have shorter := r.shrinks read
        obtain ⟨ms, after, rest, passes, ends⟩ := ih mid.length (by omega) next mid rfl
        rw [r.drain_continued read handled]
        exact ⟨m :: ms, after, rest, .head read handled passes, ends⟩

theorem drain_map {T : Type} {other : T → M → T × Option R} (f : S → T)
    (commutes : ∀ s m, other (f s) m = (f (body s m).1, (body s m).2)) (s : S) (buf : List B) :
    r.drain other (f s) buf =
      (f (r.drain body s buf).1, (r.drain body s buf).2.1, (r.drain body s buf).2.2) := by
  induction size : buf.length using Nat.strongRecOn generalizing s buf with
  | _ n ih =>
    match read : r.read buf with
    | .error e => rw [r.drain_failed read, r.drain_failed read]
    | .ok none => rw [r.drain_drained read, r.drain_drained read]
    | .ok (some (m, mid)) =>
      have image := commutes s m
      match handled : body s m with
      | (last, some result) =>
        rw [handled] at image
        rw [r.drain_stopped read image, r.drain_stopped read handled]
      | (next, none) =>
        have shorter := r.shrinks read
        rw [handled] at image
        rw [r.drain_continued read image, r.drain_continued read handled]
        exact ih mid.length (by omega) next mid rfl

theorem loop_invariant {inv : S → Prop} (preserved : ∀ s m, inv s → inv (body s m).1) (fuel : Nat)
    {s : S} (initial : inv s) (buf : List B) : inv (r.loop body fuel s buf).1 := by
  induction fuel generalizing s buf with
  | zero => exact initial
  | succ fuel ih =>
    simp only [loop]
    split
    · exact initial
    · exact initial
    · rename_i m rest taken
      have kept := preserved s m initial
      split
      · rename_i after result handled
        rw [handled] at kept
        exact kept
      · rename_i after handled
        rw [handled] at kept
        exact ih kept rest

theorem drain_invariant {inv : S → Prop} (preserved : ∀ s m, inv s → inv (body s m).1) {s : S}
    (initial : inv s) (buf : List B) : inv (r.drain body s buf).1 :=
  r.loop_invariant body preserved _ initial buf

end Drain

section TakeAll

variable {B E M S R : Type} {r : Reader B E M}

theorem Passes.drain {body : S → M → S × Option R} {s after : S} {buf rest : List B} {ms : List M}
    (passes : r.Passes body s buf ms after rest) : r.drain body s buf = r.drain body after rest := by
  induction passes with
  | refl s buf => rfl
  | head took continued tail ih => rw [r.drain_continued took continued, ih]

theorem Passes.append {body : S → M → S × Option R} (incremental : r.Incremental) {s after : S}
    {buf rest : List B} {ms : List M} (passes : r.Passes body s buf ms after rest) (more : List B) :
    r.Passes body s (buf ++ more) ms after (rest ++ more) := by
  induction passes with
  | refl s buf => exact .refl s (buf ++ more)
  | head took continued tail ih => exact .head (incremental.message took more) continued ih

theorem Passes.trans {body : S → M → S × Option R} {s mid after : S} {buf left rest : List B}
    {first second : List M} (passes : r.Passes body s buf first mid left)
    (later : r.Passes body mid left second after rest) :
    r.Passes body s buf (first ++ second) after rest := by
  induction passes with
  | refl s buf => exact later
  | head took continued tail ih => exact .head took continued (ih later)

theorem Passes.invariant {body : S → M → S × Option R} {inv : S → Prop}
    (preserved : ∀ s m next, inv s → body s m = (next, none) → inv next) {s after : S}
    {buf rest : List B} {ms : List M} (passes : r.Passes body s buf ms after rest) (initial : inv s) :
    inv after := by
  induction passes with
  | refl s buf => exact initial
  | head took continued tail ih => exact ih (preserved _ _ _ initial continued)

theorem Passes.transfer {body : S → M → S × Option R} {T Q : Type} {other : T → M → T × Option Q}
    (endless : ∀ t m, (other t m).2 = none) {s after : S} {buf rest : List B} {ms : List M}
    (passes : r.Passes body s buf ms after rest) (t : T) :
    r.Passes other t buf ms (ms.foldl (fun t m => (other t m).1) t) rest := by
  induction passes generalizing t with
  | refl s buf => exact .refl t buf
  | @head s next after buf mid rest m ms took continued tail ih =>
    have goes : other t m = ((other t m).1, none) := Prod.ext rfl (endless t m)
    exact .head took goes (ih (other t m).1)

variable (r)

def takeAll (buf : List B) : List M × List B × Ended E Empty :=
  r.drain (fun ms m => (ms ++ [m], none)) [] buf

theorem foldl_concat (first ms : List M) : ms.foldl (fun ms m => ms ++ [m]) first = first ++ ms := by
  induction ms generalizing first with
  | nil => simp
  | cons m ms ih => simp [ih]

variable {r}

theorem Passes.collects {body : S → M → S × Option R} {s after : S} {buf rest : List B} {ms : List M}
    (passes : r.Passes body s buf ms after rest) (first : List M) :
    r.Passes (fun ms m => (ms ++ [m], (none : Option Empty))) first buf ms (first ++ ms) rest := by
  have collected := passes.transfer
    (fun _ _ => rfl : ∀ (ms : List M) m, ((ms ++ [m], (none : Option Empty)) : List M × Option Empty).2 = none)
    first
  rwa [foldl_concat] at collected

theorem Passes.takeAll {body : S → M → S × Option R} {s after : S} {buf rest : List B} {ms : List M}
    (passes : r.Passes body s buf ms after rest) :
    (r.read rest = .ok none → r.takeAll buf = (ms, rest, .drained)) ∧
      ∀ e, r.read rest = .error e → r.takeAll buf = (ms, rest, .failed e) := by
  have collected := passes.collects []
  have same := collected.drain
  constructor
  · intro read
    rw [r.drain_drained read] at same
    exact same
  · intro e read
    rw [r.drain_failed read] at same
    exact same

theorem drain_endless {body : S → M → S × Option R} (endless : ∀ s m, (body s m).2 = none) (s : S)
    (buf : List B) :
    ∃ ms rest, r.Passes body s buf ms (ms.foldl (fun s m => (body s m).1) s) rest ∧
      ((r.read rest = .ok none ∧ r.takeAll buf = (ms, rest, .drained) ∧
          r.drain body s buf = (ms.foldl (fun s m => (body s m).1) s, rest, .drained)) ∨
        ∃ e, r.read rest = .error e ∧ r.takeAll buf = (ms, rest, .failed e) ∧
          r.drain body s buf = (ms.foldl (fun s m => (body s m).1) s, rest, .failed e)) := by
  obtain ⟨ms, after, rest, passes, ends⟩ := r.drain_passes body s buf
  have folded := passes.transfer endless s
  refine ⟨ms, rest, folded, ?_⟩
  obtain ⟨read, -⟩ | ⟨e, read, -⟩ | ⟨m, left, last, result, -, stopped, -⟩ := ends
  · exact .inl ⟨read, passes.takeAll.1 read, by rw [folded.drain, r.drain_drained read]⟩
  · exact .inr ⟨e, read, passes.takeAll.2 e read, by rw [folded.drain, r.drain_failed read]⟩
  · have never := endless after m
    simp [stopped] at never

end TakeAll

section Feed

variable {B E M : Type} (r : Reader B E M)

/-- One more piece of input, with all messages taken out before the next one comes. After a failure
nothing is taken any more. -/
def feed : List M × List B × Ended E Empty → List B → List M × List B × Ended E Empty
  | (taken, rest, .drained), piece => r.drain (fun ms m => (ms ++ [m], none)) taken (rest ++ piece)
  | (taken, rest, ended), piece => (taken, rest ++ piece, ended)

variable {r}

theorem takeAll_append (incremental : r.Incremental) (first piece : List B) :
    r.takeAll (first ++ piece) = r.feed (r.takeAll first) piece := by
  rw [takeAll, r.drain_append incremental, takeAll]
  generalize r.drain (fun ms m => (ms ++ [m], none)) [] first = fed
  obtain ⟨taken, rest, ended⟩ := fed
  cases ended <;> rfl

theorem foldl_feed (incremental : r.Incremental) (first : List B) (pieces : List (List B)) :
    pieces.foldl r.feed (r.takeAll first) = r.takeAll (first ++ pieces.flatten) := by
  induction pieces generalizing first with
  | nil => simp
  | cons piece pieces ih =>
    rw [List.foldl_cons, ← takeAll_append incremental, ih, List.flatten_cons, List.append_assoc]

end Feed

end Reader
