import Mathlib.Data.List.Basic

/-!
# Programs that read a file

A program asks for pieces of a file that does not change, one after the other, and may fail. What
it computes is a function of the answers, and the pieces that it asks for can be bounded whatever
the answers are. A file answers with the piece itself.

## Main definitions

* `Reader ε β α`: programs that read symbols of type `β`.
* `Reader.run`: the result of a program.
* `Reader.Reads P Q m`: every piece that `m` asks for meets `P`, every result meets `Q`.
* `serve f`: the answers of the file `f`.

## Main results

* `Reader.run_bind`: a program runs part by part.
* `Reader.Reads.bind`: what it reads and returns is found part by part as well.
-/

namespace Reading

variable {ε ε' β α γ : Type}

/-- A program that reads a file and may fail. -/
inductive Reader (ε β α : Type) : Type
  | done (a : α)
  | fail (e : ε)
  | read (offset length : Nat) (k : List β → Reader ε β α)

namespace Reader

/-- Going on with a result. -/
protected def bind (m : Reader ε β α) (k : α → Reader ε β γ) : Reader ε β γ :=
  match m with
  | done a => k a
  | fail e => fail e
  | read offset length next => read offset length fun got => (next got).bind k

instance : Monad (Reader ε β) where
  pure := done
  bind := Reader.bind

/-- The result of a program, given the answers to what it asks for. -/
def run (pread : Nat → Nat → List β) : Reader ε β α → Except ε α
  | done a => .ok a
  | fail e => .error e
  | read offset length next => (next (pread offset length)).run pread

/-- A program whose failure is a result. -/
def attempt : Reader ε β α → Reader ε' β (Except ε α)
  | done a => done (.ok a)
  | fail e => done (.error e)
  | read offset length next => read offset length fun got => (next got).attempt

variable (pread : Nat → Nat → List β)

@[simp]
theorem run_pure (a : α) : (pure a : Reader ε β α).run pread = .ok a := rfl

@[simp]
theorem run_bind (m : Reader ε β α) (k : α → Reader ε β γ) :
    (m >>= k).run pread = m.run pread >>= fun a => (k a).run pread := by
  induction m with
  | done a => rfl
  | fail e => rfl
  | read offset length next ih => exact ih _

@[simp]
theorem run_attempt (m : Reader ε β α) :
    (m.attempt : Reader ε' β _).run pread = .ok (m.run pread) := by
  induction m with
  | done a => rfl
  | fail e => rfl
  | read offset length next ih => exact ih _

theorem run_ite (p : Prop) [Decidable p] (m n : Reader ε β α) :
    (if p then m else n).run pread = if p then m.run pread else n.run pread := by
  split <;> rfl

/-! ### What is read, and what comes of it -/

/-- Whatever the answers are, every piece that the program asks for meets `P` and every result
meets `Q`. -/
def Reads (P : Nat → Nat → Prop) (Q : α → Prop) : Reader ε β α → Prop
  | done a => Q a
  | fail _ => True
  | read offset length next => P offset length ∧ ∀ got, (next got).Reads P Q

variable {P : Nat → Nat → Prop} {Q : α → Prop} {R : γ → Prop}

theorem Reads.pure {a : α} (h : Q a) : Reads P Q (pure a : Reader ε β α) := h

@[simp]
theorem Reads.fail (e : ε) : Reads P Q (fail e : Reader ε β α) := trivial

variable {m : Reader ε β α}

theorem Reads.mono {P' : Nat → Nat → Prop} {Q' : α → Prop} (hm : Reads P Q m)
    (hP : ∀ offset length, P offset length → P' offset length) (hQ : ∀ a, Q a → Q' a) :
    Reads P' Q' m := by
  induction m with
  | done a => exact hQ a hm
  | fail e => trivial
  | read offset length next ih => exact ⟨hP _ _ hm.1, fun got => ih got (hm.2 got)⟩

theorem Reads.bind {k : α → Reader ε β γ} (hm : Reads P Q m) (hk : ∀ a, Q a → Reads P R (k a)) :
    Reads P R (m >>= k) := by
  induction m with
  | done a => exact hk a hm
  | fail e => trivial
  | read offset length next ih => exact ⟨hm.1, fun got => ih got (hm.2 got)⟩

theorem Reads.attempt (hm : Reads P Q m) :
    Reads P (fun r => ∀ a, r = .ok a → Q a) (m.attempt : Reader ε' β _) := by
  induction m with
  | done a => exact fun _ h => Except.ok.inj h ▸ hm
  | fail e => exact fun _ h => nomatch h
  | read offset length next ih => exact ⟨hm.1, fun got => ih got (hm.2 got)⟩

theorem Reads.ite {p : Prop} [Decidable p] {m n : Reader ε β α} (hm : p → Reads P Q m)
    (hn : ¬p → Reads P Q n) : Reads P Q (if p then m else n) :=
  iteInduction hm hn

theorem Reads.either {p : Prop} [Decidable p] {m n : Reader ε β α} (hm : Reads P Q m)
    (hn : Reads P Q n) : Reads P Q (if p then m else n) :=
  .ite (fun _ => hm) fun _ => hn

/-- Two programs that go on in the same way from every result are the same. -/
theorem Reads.bind_congr {k l : α → Reader ε β γ} (hm : Reads P Q m) (h : ∀ a, Q a → k a = l a) :
    m >>= k = m >>= l := by
  induction m with
  | done a => exact h a hm
  | fail e => rfl
  | read offset length next ih =>
    exact congrArg (read offset length) (funext fun got => ih got (hm.2 got))

/-- What holds of every result holds of the one that comes. -/
theorem Reads.run (hm : Reads P Q m) {a : α} (h : m.run pread = .ok a) :
    Q a := by
  induction m with
  | done a' => exact Except.ok.inj h ▸ hm
  | fail e => exact absurd h nofun
  | read offset length next ih => exact ih _ (hm.2 _) h

end Reader

/-! ### Files -/

/-- The piece of a file that is asked for, as far as the file goes. -/
def serve (f : List β) (offset length : Nat) : List β := (f.drop offset).take length

theorem length_serve {f : List β} {offset length : Nat} (h : offset + length ≤ f.length) :
    (serve f offset length).length = length := by
  rw [serve, List.length_take, List.length_drop]
  omega

theorem drop_serve (f : List β) (offset length k : Nat) :
    (serve f offset length).drop k = serve f (offset + k) (length - k) := by
  rw [serve, serve, List.drop_take, List.drop_drop]

end Reading
