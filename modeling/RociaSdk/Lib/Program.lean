import Mathlib.Init

/-!
# Programs beside an environment

A `Program` performs atomic operations and goes on with their answers. It runs on a state it shares with an environment, which
may do anything its relation allows before each operation and after the last. `wp` is what has to hold of a state for every run
of a program from there to keep a guarantee in each state and to return with a postcondition; `Runs.sound` says that it does,
and the rules for `wp` follow the program. Where it is known what every operation comes to, `eval` computes what a program returns.
-/

namespace Interleave

/-- A program that performs operations and returns a value. -/
inductive Program (Op : Type) (Ans : Op → Type) (α : Type) where
  | ret (a : α)
  | act (op : Op) (next : Ans op → Program Op Ans α)

namespace Program

variable {Op : Type} {Ans : Op → Type} {α β : Type}

/-- One program after another. -/
def bind (p : Program Op Ans α) (k : α → Program Op Ans β) : Program Op Ans β :=
  match p with
  | ret a => k a
  | act op next => act op fun answer => (next answer).bind k

instance : Monad (Program Op Ans) where
  pure := ret
  bind := bind

/-- The program that performs one operation. -/
def perform (op : Op) : Program Op Ans (Ans op) := act op ret

/-! ## Evaluation -/

section Evaluation

variable {σ : Type} (respond : (op : Op) → σ → Ans op × σ)

/-- What a program returns, and the state it leaves, where every operation comes to what `respond` says. -/
def eval : Program Op Ans α → σ → α × σ
  | ret a, s => (a, s)
  | act op next, s => (next (respond op s).1).eval (respond op s).2

@[simp] theorem eval_pure (a : α) (s : σ) : (pure a : Program Op Ans α).eval respond s = (a, s) := rfl

@[simp] theorem eval_perform (op : Op) (s : σ) : (perform op : Program Op Ans (Ans op)).eval respond s = respond op s := rfl

/-- One program after another is evaluated so. -/
@[simp] theorem eval_bind (p : Program Op Ans α) (k : α → Program Op Ans β) (s : σ) :
    (p >>= k).eval respond s = (k (p.eval respond s).1).eval respond (p.eval respond s).2 := by
  show (p.bind k).eval respond s = _
  induction p generalizing s with
  | ret a => rfl
  | act op next ih => exact ih _ _

end Evaluation

end Program

/-- What operations and the environment do to the shared state. The environment's relation stands for any number of its steps,
and an invariant is kept by these and by every operation. -/
structure System (Op : Type) (Ans : Op → Type) (σ : Type) where
  act : (op : Op) → σ → Ans op → σ → Prop
  env : σ → σ → Prop
  inv : σ → Prop
  env_refl : ∀ s, env s s
  env_trans : ∀ {s t u}, env s t → env t u → env s u
  env_inv : ∀ {s t}, inv s → env s t → inv t
  act_inv : ∀ {op s answer t}, inv s → act op s answer t → inv t

variable {Op : Type} {Ans : Op → Type} {σ α β : Type}

/-- What a program has become, and the state with it, after some of its operations and of the environment's steps. -/
inductive Runs (S : System Op Ans σ) (p : Program Op Ans α) (s : σ) : Program Op Ans α → σ → Prop where
  | refl : Runs S p s p s
  | env {q : Program Op Ans α} {t u : σ} : Runs S p s q t → S.env t u → Runs S p s q u
  | act {op : Op} {next : Ans op → Program Op Ans α} {answer : Ans op} {t u : σ} :
      Runs S p s (.act op next) t → S.act op t answer u → Runs S p s (next answer) u

/-- Every run of the program from the state keeps the guarantee and returns with the postcondition. -/
def wp (S : System Op Ans σ) (guarantee : σ → Prop) (post : α → σ → Prop) : Program Op Ans α → σ → Prop
  | .ret a, s => ∀ t, S.env s t → S.inv t → guarantee t ∧ post a t
  | .act op next, s => ∀ t, S.env s t → S.inv t →
      guarantee t ∧ ∀ answer u, S.act op t answer u → wp S guarantee post (next answer) u

variable {S : System Op Ans σ} {G G' : σ → Prop} {Q Q' : α → σ → Prop} {p q : Program Op Ans α} {s t : σ}

/-- What the environment does first takes nothing away. -/
theorem wp.env (h : wp S G Q p s) (henv : S.env s t) : wp S G Q p t := by
  cases p with
  | ret a => exact fun u hu hi => h u (S.env_trans henv hu) hi
  | act op next => exact fun u hu hi => h u (S.env_trans henv hu) hi

/-- The guarantee holds where a program stands. -/
theorem wp.guarantee (h : wp S G Q p s) (hi : S.inv s) : G s := by
  cases p with
  | ret a => exact (h s (S.env_refl s) hi).1
  | act op next => exact (h s (S.env_refl s) hi).1

/-- A weaker guarantee and a weaker postcondition. -/
theorem wp.mono (h : wp S G Q p s) (hG : ∀ t, S.inv t → G t → G' t) (hQ : ∀ a t, S.inv t → Q a t → Q' a t) :
    wp S G' Q' p s := by
  induction p generalizing s with
  | ret a => exact fun t ht hi => ⟨hG t hi (h t ht hi).1, hQ a t hi (h t ht hi).2⟩
  | act op next ih =>
    intro t ht hi
    exact ⟨hG t hi (h t ht hi).1, fun answer u hu => ih answer ((h t ht hi).2 answer u hu)⟩

/-- Where less can happen, as much holds. -/
theorem wp.restrict {S' : System Op Ans σ} (h : wp S G Q p s)
    (hact : ∀ op t answer u, S'.act op t answer u → S.act op t answer u) (henv : ∀ t u, S'.env t u → S.env t u)
    (hinv : ∀ t, S'.inv t → S.inv t) : wp S' G Q p s := by
  induction p generalizing s with
  | ret a => exact fun t ht hi => h t (henv _ _ ht) (hinv _ hi)
  | act op next ih =>
    intro t ht hi
    obtain ⟨hG, hnext⟩ := h t (henv _ _ ht) (hinv _ hi)
    exact ⟨hG, fun answer u hu => ih answer (hnext answer u (hact _ _ _ _ hu))⟩

/-- To return, the guarantee and the postcondition have to survive the environment. -/
theorem wp_ret {a : α} (h : ∀ t, S.env s t → S.inv t → G t ∧ Q a t) : wp S G Q (pure a) s := h

/-- Where the first program returns, the second one goes on. -/
theorem wp_bind {p : Program Op Ans α} {k : α → Program Op Ans β} {Q : β → σ → Prop} (hi : S.inv s)
    (h : wp S G (fun a t => wp S G Q (k a) t) p s) : wp S G Q (p >>= k) s := by
  show wp S G Q (p.bind k) s
  induction p generalizing s with
  | ret a => exact (h s (S.env_refl s) hi).2
  | act op next ih =>
    intro t ht hit
    obtain ⟨hG, hnext⟩ := h t ht hit
    exact ⟨hG, fun answer u hu => ih answer (S.act_inv hit hu) (hnext answer u hu)⟩

/-- To perform an operation, the guarantee has to survive the environment before it, and what is asked of the answer the
environment before and after it. -/
theorem wp_perform {op : Op} {Q : Ans op → σ → Prop}
    (h : ∀ t, S.env s t → S.inv t → G t ∧ ∀ answer u, S.act op t answer u → ∀ v, S.env u v → S.inv v → G v ∧ Q answer v) :
    wp S G Q (Program.perform op) s :=
  fun t ht hi => ⟨(h t ht hi).1, fun answer u hu => (h t ht hi).2 answer u hu⟩

/-- A run keeps the invariant, and what is left of the program is as good as the program was. -/
theorem Runs.sound (h : Runs S p s q t) (hi : S.inv s) (hp : wp S G Q p s) : S.inv t ∧ wp S G Q q t := by
  induction h with
  | refl => exact ⟨hi, hp⟩
  | env _ henv ih => exact ⟨S.env_inv ih.1 henv, ih.2.env henv⟩
  | act _ hact ih =>
    exact ⟨S.act_inv ih.1 hact, (ih.2 _ (S.env_refl _) ih.1).2 _ _ hact⟩

/-- The guarantee holds in every state of a run. -/
theorem Runs.guarantee (h : Runs S p s q t) (hi : S.inv s) (hp : wp S G Q p s) : G t :=
  (h.sound hi hp).2.guarantee (h.sound hi hp).1

/-- What a run returns meets the postcondition. -/
theorem Runs.post {a : α} (h : Runs S p s (pure a) t) (hi : S.inv s) (hp : wp S G Q p s) : Q a t :=
  ((h.sound hi hp).2 t (S.env_refl t) (h.sound hi hp).1).2

/-! ## Runs in two systems, and runs again and again -/

/-- A run in a system is a run in another one that sees less of the state. -/
theorem Runs.map {τ : Type} {S' : System Op Ans τ} (f : σ → τ)
    (hact : ∀ op s answer t, S.act op s answer t → S'.act op (f s) answer (f t)) (henv : ∀ s t, S.env s t → S'.env (f s) (f t))
    (h : Runs S p s q t) : Runs S' p (f s) q (f t) := by
  induction h with
  | refl => exact .refl
  | env _ he ih => exact ih.env (henv _ _ he)
  | act _ ha ih => exact ih.act (hact _ _ _ _ ha)

/-- What it comes to when a program is run again and again: every run so far was dropped on its way or has returned something
else than `a`. -/
inductive Repeats (S : System Op Ans σ) (p : Program Op Ans α) (a : α) (s : σ) : σ → Prop where
  | refl : Repeats S p a s s
  | again {left : Program Op Ans α} {t u : σ} : Repeats S p a s t → Runs S p t left u → left ≠ pure a → Repeats S p a s u

/-- What every run keeps is kept when the program is run again and again. -/
theorem Repeats.invariant {a : α} (P : σ → Prop) (h : Repeats S p a s t) (hinit : P s)
    (hrun : ∀ t left u, P t → Runs S p t left u → P u) : P t := by
  induction h with
  | refl => exact hinit
  | again _ hr _ ih => exact hrun _ _ _ ih hr

end Interleave
