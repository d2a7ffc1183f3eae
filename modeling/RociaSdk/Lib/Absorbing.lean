import Mathlib.Data.Finset.Dedup
import Mathlib.Data.Finset.Lattice.Basic
import Mathlib.Data.Finset.Option

/-!
# Services that absorb replays

A service applies requests to what it holds. It refuses some, and it absorbs one whose key it has marked: it acknowledges such a
request and changes nothing. A key is marked when a request with it lands, that is, when it is applied. `landed` are the requests
of a run that land. What a run comes to is what a service that absorbs nothing makes of these alone (`plain_landed`), and no key
lands twice (`nodup_landed`).
-/

namespace Absorbing

/-- What a service does with a request: the key it is known by, if it has one, what is checked of the request alone, and what is
made of the contents. -/
structure Service (γ ρ κ ε : Type) where
  key : ρ → Option κ
  vet : ρ → Except ε Unit
  apply : ρ → γ → Except ε γ

/-- What a service holds, and the keys it has marked. -/
structure Marked (γ κ : Type) where
  contents : γ
  marks : Finset κ

variable {γ ρ κ ε : Type} [DecidableEq κ]

namespace Marked

/-- Whether a key is marked. -/
def knows (m : Marked γ κ) (key : Option κ) : Bool := key.any fun k => k ∈ m.marks

/-- The contents are replaced and a key is marked. -/
def mark (m : Marked γ κ) (contents : γ) (key : Option κ) : Marked γ κ :=
  { contents := contents, marks := m.marks ∪ key.toFinset }

/-- What a request that is not absorbed comes to. -/
def settle (m : Marked γ κ) (key : Option κ) : Except ε γ → Except ε Unit × Marked γ κ
  | .error e => (.error e, m)
  | .ok contents => (.ok (), m.mark contents key)

@[simp] theorem knows_none (m : Marked γ κ) : m.knows none = false := rfl

@[simp] theorem knows_some (m : Marked γ κ) (k : κ) : m.knows (some k) = true ↔ k ∈ m.marks := by
  simp [knows]

@[simp] theorem mark_contents (m : Marked γ κ) (contents : γ) (key : Option κ) : (m.mark contents key).contents = contents := rfl

@[simp] theorem mark_marks (m : Marked γ κ) (contents : γ) (key : Option κ) :
    (m.mark contents key).marks = m.marks ∪ key.toFinset := rfl

end Marked

namespace Service

variable (S : Service γ ρ κ ε)

/-- What becomes of a request, and the answer to it. -/
def handle (m : Marked γ κ) (r : ρ) : Except ε Unit × Marked γ κ :=
  match S.vet r with
  | .error e => (.error e, m)
  | .ok () =>
    if m.knows (S.key r) then (.ok (), m) else m.settle (S.key r) (S.apply r m.contents)

/-- What a run of requests makes of the service. -/
def serve (m : Marked γ κ) (rs : List ρ) : Marked γ κ := rs.foldl (fun m r => (S.handle m r).2) m

/-- What a request makes of the contents if it lands. -/
def land (m : Marked γ κ) (r : ρ) : Option γ :=
  match S.vet r with
  | .error _ => none
  | .ok () => if m.knows (S.key r) then none else (S.apply r m.contents).toOption

/-- The requests of a run that land. -/
def landed : Marked γ κ → List ρ → List ρ
  | _, [] => []
  | m, r :: rs =>
    match S.land m r with
    | some contents => r :: landed (m.mark contents (S.key r)) rs
    | none => landed m rs

/-- What a service that absorbs nothing makes of requests. -/
def plain (contents : γ) (rs : List ρ) : Except ε γ := rs.foldlM (fun contents r => S.apply r contents) contents

variable {S} {m : Marked γ κ} {r : ρ} {rs : List ρ} {contents contents' : γ} {k : κ}

/-! ## One request -/

/-- A request lands, or it changes nothing. -/
theorem handle_state (S : Service γ ρ κ ε) (m : Marked γ κ) (r : ρ) :
    (S.handle m r).2 = (S.land m r).elim m fun contents => m.mark contents (S.key r) := by
  unfold handle land
  split
  · rfl
  · split
    · rfl
    · cases S.apply r m.contents <;> rfl

/-- What lands was vetted, was not known, and was applied. -/
theorem land_eq_some_iff :
    S.land m r = some contents ↔ S.vet r = .ok () ∧ m.knows (S.key r) = false ∧ S.apply r m.contents = .ok contents := by
  unfold land
  cases hvet : S.vet r with
  | error e => simp
  | ok u =>
    cases hknows : m.knows (S.key r) with
    | true => simp
    | false => cases S.apply r m.contents <;> simp [Except.toOption]

/-- A request that is acknowledged has landed, or it was vetted and absorbed. -/
theorem handle_ok_iff :
    (S.handle m r).1 = .ok () ↔ (S.land m r).isSome = true ∨ S.vet r = .ok () ∧ m.knows (S.key r) = true := by
  unfold handle land
  cases hvet : S.vet r with
  | error e => simp
  | ok u =>
    cases hknows : m.knows (S.key r) with
    | true => simp
    | false => cases S.apply r m.contents <;> simp [Except.toOption, Marked.settle]

/-- What is refused changes nothing. -/
theorem handle_refused {e : ε} (h : (S.handle m r).1 = .error e) : (S.handle m r).2 = m := by
  rw [handle_state]
  cases hland : S.land m r with
  | none => rfl
  | some contents =>
    have hok : (S.handle m r).1 = .ok () := handle_ok_iff.2 (.inl (by simp [hland]))
    rw [hok] at h
    cases h

/-! ## Runs -/

@[simp] theorem serve_nil (S : Service γ ρ κ ε) (m : Marked γ κ) : S.serve m [] = m := rfl

@[simp] theorem serve_cons (S : Service γ ρ κ ε) (m : Marked γ κ) (r : ρ) (rs : List ρ) :
    S.serve m (r :: rs) = S.serve (S.handle m r).2 rs := rfl

theorem landed_append (S : Service γ ρ κ ε) (m : Marked γ κ) (rs rs' : List ρ) :
    S.landed m (rs ++ rs') = S.landed m rs ++ S.landed (S.serve m rs) rs' := by
  induction rs generalizing m with
  | nil => rfl
  | cons r rs ih =>
    simp only [List.cons_append, landed, serve_cons, handle_state]
    cases S.land m r with
    | none => exact ih m
    | some contents => simpa using ih _

/-- A run comes to what a service that absorbs nothing makes of the requests that land. -/
theorem plain_landed (S : Service γ ρ κ ε) (m : Marked γ κ) (rs : List ρ) :
    S.plain m.contents (S.landed m rs) = .ok (S.serve m rs).contents := by
  induction rs generalizing m with
  | nil => rfl
  | cons r rs ih =>
    simp only [landed, serve_cons, handle_state]
    cases hland : S.land m r with
    | none => exact ih m
    | some contents =>
      have happly : S.apply r m.contents = .ok contents := (land_eq_some_iff.1 hland).2.2
      simp only [plain, List.foldlM_cons, happly]
      exact ih (m.mark contents (S.key r))

/-- What is marked after a run: what was marked before, and the keys of the requests that landed. -/
theorem marks_serve (S : Service γ ρ κ ε) (m : Marked γ κ) (rs : List ρ) :
    (S.serve m rs).marks = m.marks ∪ ((S.landed m rs).filterMap S.key).toFinset := by
  induction rs generalizing m with
  | nil => simp [landed]
  | cons r rs ih =>
    simp only [landed, serve_cons, handle_state]
    cases S.land m r with
    | none => exact ih m
    | some contents =>
      rw [Option.elim_some, ih, Marked.mark_marks, Finset.union_assoc]
      congr 1
      cases hk : S.key r with
      | none => simp [hk]
      | some k => rw [List.filterMap_cons_some hk, List.toFinset_cons, Finset.insert_eq, Option.toFinset_some]

/-- No key that is marked lands. -/
theorem not_marked_of_landed (h : k ∈ (S.landed m rs).filterMap S.key) : k ∉ m.marks := by
  induction rs generalizing m with
  | nil => simp [landed] at h
  | cons r rs ih =>
    simp only [landed] at h
    cases hland : S.land m r with
    | none =>
      rw [hland] at h
      exact ih h
    | some contents =>
      simp only [hland, List.filterMap_cons] at h
      have hrest : k ∈ (S.landed (m.mark contents (S.key r)) rs).filterMap S.key → k ∉ m.marks := fun hmem hmark =>
        ih hmem (Finset.mem_union_left _ hmark)
      cases hk : S.key r with
      | none =>
        rw [hk] at h hrest
        exact hrest h
      | some k' =>
        rw [hk] at h hrest
        rcases List.mem_cons.1 h with rfl | hmem
        · have hknown := (land_eq_some_iff.1 hland).2.1
          rw [hk] at hknown
          intro hmark
          simp [Marked.knows, hmark] at hknown
        · exact hrest hmem

/-- No key lands twice. -/
theorem nodup_landed (S : Service γ ρ κ ε) (m : Marked γ κ) (rs : List ρ) : ((S.landed m rs).filterMap S.key).Nodup := by
  induction rs generalizing m with
  | nil => simp [landed]
  | cons r rs ih =>
    simp only [landed]
    cases S.land m r with
    | none => exact ih m
    | some contents =>
      cases hk : S.key r with
      | none => simpa [hk] using ih _
      | some k =>
        simp only [List.filterMap_cons, hk, List.nodup_cons]
        refine ⟨fun hmem => not_marked_of_landed hmem ?_, ih _⟩
        simp

/-- What every request that lands keeps is kept by a run. -/
theorem serve_invariant (P : γ → Prop) (hinit : P m.contents)
    (happly : ∀ r contents contents', S.vet r = .ok () → P contents → S.apply r contents = .ok contents' → P contents')
    (rs : List ρ) : P (S.serve m rs).contents := by
  induction rs generalizing m with
  | nil => exact hinit
  | cons r rs ih =>
    rw [serve_cons, handle_state]
    cases hland : S.land m r with
    | none => exact ih hinit
    | some contents =>
      obtain ⟨hvet, -, hcontents⟩ := land_eq_some_iff.1 hland
      exact ih (happly r m.contents contents hvet hinit hcontents)

omit [DecidableEq κ] in
/-- A view of the contents shows what the last request that says something of it has said. -/
theorem plain_view {α : Type} (view : γ → α) (said : ρ → Option α)
    (happly : ∀ r contents contents', S.apply r contents = .ok contents' → view contents' = (said r).getD (view contents))
    (h : S.plain contents rs = .ok contents') : view contents' = (rs.reverse.findSome? said).getD (view contents) := by
  induction rs generalizing contents with
  | nil =>
    cases h
    rfl
  | cons r rs ih =>
    simp only [plain, List.foldlM_cons] at h
    cases hr : S.apply r contents with
    | error e =>
      rw [hr] at h
      cases h
    | ok after =>
      rw [hr] at h
      rw [ih h, happly r contents after hr, List.reverse_cons, List.findSome?_append]
      cases rs.reverse.findSome? said <;> simp

omit [DecidableEq κ] in
/-- What follows the contents through every request follows them through all of them. -/
theorem plain_follows {α : Type} (R : γ → α → Prop) (change : α → ρ → α)
    (happly : ∀ r contents contents' a, R contents a → S.apply r contents = .ok contents' → R contents' (change a r)) {a : α}
    (ha : R contents a) (h : S.plain contents rs = .ok contents') : R contents' (rs.foldl change a) := by
  induction rs generalizing contents a with
  | nil =>
    cases h
    exact ha
  | cons r rs ih =>
    simp only [plain, List.foldlM_cons] at h
    cases hr : S.apply r contents with
    | error e =>
      rw [hr] at h
      cases h
    | ok after =>
      rw [hr] at h
      exact ih (happly r contents after a ha hr) h

end Service

end Absorbing
