import Mathlib

/-!
# Successful computations in `Except`

A program that stops at its first failure is a chain of `Except` binds; a loop
that stops at its first failure is a `List.foldlM` in `Except`. These are the
facts that peel a successful run of such a program apart: each bind returned
a value that the rest was run on, and each step of a successful fold
succeeded on the accumulator the previous steps left, so a property of the
accumulator that every step keeps holds of the result; and a loop without
result succeeds exactly when each of its steps does.
-/

universe u v

namespace Except

variable {ε ε' : Type u} {α β : Type v}

theorem bind_eq_ok {x : Except ε α} {f : α → Except ε β} {b : β} :
    x >>= f = .ok b ↔ ∃ a, x = .ok a ∧ f a = .ok b := by
  cases x <;> simp [Bind.bind, Except.bind]

theorem map_eq_ok {x : Except ε α} {f : α → β} {b : β} :
    f <$> x = .ok b ↔ ∃ a, x = .ok a ∧ f a = b := by
  cases x <;> simp [Functor.map, Except.map]

theorem map_eq_error {x : Except ε α} {f : α → β} {e : ε} :
    f <$> x = .error e ↔ x = .error e := by
  cases x <;> simp [Functor.map, Except.map]

theorem throw_ne_ok {e : ε} {a : α} : (throw e : Except ε α) ≠ .ok a := by
  simp [throw, throwThe, MonadExceptOf.throw]

/-- A statement `if c then throw e` of a `do` block, followed by `k`, succeeds
    exactly when `c` fails and `k` succeeds. -/
theorem ite_throw_bind_eq_ok {c : Prop} [Decidable c] {e : ε} {k : PUnit → Except ε α} {a : α} :
    (if c then throw e >>= k else k ⟨⟩) = .ok a ↔ ¬c ∧ k ⟨⟩ = .ok a := by
  by_cases hc : c <;> simp [hc, throw, throwThe, MonadExceptOf.throw, bind, Except.bind]

theorem toOption_eq_some {x : Except ε α} {a : α} : x.toOption = some a ↔ x = .ok a := by
  cases x <;> simp [Except.toOption]

theorem mapError_eq_ok {x : Except ε α} {f : ε → ε'} {a : α} :
    x.mapError f = .ok a ↔ x = .ok a := by
  cases x <;> simp [Except.mapError]

end Except

namespace List

variable {ε : Type u} {α β : Type v} {f : β → α → Except ε β}

/-- A property of the accumulator that every successful step on an element of
    the list keeps holds of the result of a successful fold. -/
theorem foldlM_except_induction (P : β → Prop) :
    ∀ {l : List α}, (∀ a ∈ l, ∀ x y, P x → f x a = .ok y → P y) →
      ∀ {b r : β}, l.foldlM f b = .ok r → P b → P r
  | [], _, b, r, h, hb => by
    simp only [foldlM_nil, pure, Except.pure, Except.ok.injEq] at h
    exact h ▸ hb
  | a :: l, step, b, r, h, hb => by
    rw [foldlM_cons, Except.bind_eq_ok] at h
    obtain ⟨y, hy, hrest⟩ := h
    exact foldlM_except_induction P (fun a' ha' => step a' (mem_cons_of_mem a ha')) hrest
      (step a mem_cons_self b y hb hy)

/-- A property of the part of the list folded so far and of the accumulator,
    kept by every successful step, holds of the whole list and the result. -/
theorem foldlM_except_prefix_induction (P : List α → β → Prop)
    (step : ∀ pre a x y, P pre x → f x a = .ok y → P (pre ++ [a]) y) :
    ∀ {l pre : List α} {b r : β}, l.foldlM f b = .ok r → P pre b → P (pre ++ l) r
  | [], pre, b, r, h, hb => by
    simp only [foldlM_nil, pure, Except.pure, Except.ok.injEq] at h
    rw [List.append_nil]
    exact h ▸ hb
  | a :: l, pre, b, r, h, hb => by
    rw [foldlM_cons, Except.bind_eq_ok] at h
    obtain ⟨y, hy, hrest⟩ := h
    have := foldlM_except_prefix_induction P step hrest (step pre a b y hb hy)
    rwa [List.append_assoc, List.singleton_append] at this

/-- Every element of a successful fold was taken by a successful step, from an
    accumulator with a property that every successful step keeps. -/
theorem foldlM_except_step_of_mem (P : β → Prop) :
    ∀ {l : List α}, (∀ a ∈ l, ∀ x y, P x → f x a = .ok y → P y) →
      ∀ {b r : β}, l.foldlM f b = .ok r → P b → ∀ a ∈ l, ∃ x y, P x ∧ f x a = .ok y
  | [], _, _, _, _, _, _, ha => absurd ha not_mem_nil
  | c :: l, step, b, r, h, hb, a, ha => by
    rw [foldlM_cons, Except.bind_eq_ok] at h
    obtain ⟨y, hy, hrest⟩ := h
    rcases mem_cons.1 ha with rfl | ha
    · exact ⟨b, y, hb, hy⟩
    · exact foldlM_except_step_of_mem P (fun a' ha' => step a' (mem_cons_of_mem c ha')) hrest
        (step c mem_cons_self b y hb hy) a ha

/-- Every element of a successful `mapM` was taken by a successful step. -/
theorem mapM_except_step_of_mem {g : α → Except ε β} :
    ∀ {l : List α} {r : List β}, l.mapM g = .ok r → ∀ a ∈ l, ∃ b, g a = .ok b
  | [], _, _, _, ha => absurd ha not_mem_nil
  | c :: l, r, h, a, ha => by
    rw [mapM_cons] at h
    obtain ⟨b, hb, h⟩ := Except.bind_eq_ok.1 h
    obtain ⟨bs, hbs, -⟩ := Except.bind_eq_ok.1 h
    rcases mem_cons.1 ha with rfl | ha
    · exact ⟨b, hb⟩
    · exact mapM_except_step_of_mem hbs a ha

/-- The result of a successful `mapM` at an index is the result of its step on
    the element at that index. -/
theorem mapM_except_getElem? {g : α → Except ε β} :
    ∀ {l : List α} {r : List β}, l.mapM g = .ok r →
      ∀ {n : ℕ} {b : β}, r[n]? = some b → ∃ a, l[n]? = some a ∧ g a = .ok b
  | [], r, h, n, b, hb => by
    simp only [mapM_nil, pure, Except.pure, Except.ok.injEq] at h
    subst h
    simp at hb
  | c :: l, r, h, n, b, hb => by
    rw [mapM_cons] at h
    obtain ⟨b₀, hb₀, h⟩ := Except.bind_eq_ok.1 h
    obtain ⟨bs, hbs, h⟩ := Except.bind_eq_ok.1 h
    cases h
    cases n with
    | zero =>
      cases hb
      exact ⟨c, rfl, hb₀⟩
    | succ n => exact mapM_except_getElem? hbs hb

theorem mapM_except_length {g : α → Except ε β} :
    ∀ {l : List α} {r : List β}, l.mapM g = .ok r → r.length = l.length
  | [], r, h => by
    simp only [mapM_nil, pure, Except.pure, Except.ok.injEq] at h
    subst h
    rfl
  | c :: l, r, h => by
    rw [mapM_cons] at h
    obtain ⟨b₀, -, h⟩ := Except.bind_eq_ok.1 h
    obtain ⟨bs, hbs, h⟩ := Except.bind_eq_ok.1 h
    cases h
    rw [length_cons, length_cons, mapM_except_length hbs]

/-- A fold whose steps compute the first component of the accumulator as the
    steps of another fold do: the first component of its successful result is
    that fold's result. -/
theorem foldlM_except_fst {γ : Type v} {g : β × γ → α → Except ε (β × γ)}
    (hg : ∀ b c a r, g (b, c) a = .ok r → f b a = .ok r.1) :
    ∀ {l : List α} {b : β} {c : γ} {r : β × γ}, l.foldlM g (b, c) = .ok r → l.foldlM f b = .ok r.1
  | [], b, c, r, h => by
    simp only [foldlM_nil, pure, Except.pure, Except.ok.injEq] at h
    subst h
    rfl
  | a :: l, b, c, r, h => by
    rw [foldlM_cons, Except.bind_eq_ok] at h
    obtain ⟨⟨b', c'⟩, hy, hrest⟩ := h
    rw [foldlM_cons, hg b c a _ hy]
    exact foldlM_except_fst hg hrest

/-- A loop without result succeeds exactly when each of its steps does. -/
theorem forM_except_ok_iff {g : α → Except ε PUnit} :
    ∀ {l : List α}, l.forM g = .ok ⟨⟩ ↔ ∀ a ∈ l, g a = .ok ⟨⟩
  | [] => by simp [List.forM, pure, Except.pure]
  | a :: l => by
    show g a >>= (fun _ => l.forM g) = .ok ⟨⟩ ↔ _
    rw [Except.bind_eq_ok, forall_mem_cons, forM_except_ok_iff]
    constructor
    · rintro ⟨⟨⟩, ha, hl⟩
      exact ⟨ha, hl⟩
    · rintro ⟨ha, hl⟩
      exact ⟨⟨⟩, ha, hl⟩

/-- A successful fold whose every step adds the weight of its element: the
    result is the start plus the weights of the list. -/
theorem foldlM_except_sum {g : Int → α → Except ε Int} {w : α → Int}
    (hg : ∀ s a r, g s a = .ok r → r = s + w a) :
    ∀ {l : List α} {init r : Int}, l.foldlM g init = .ok r → r = init + (l.map w).sum
  | [], init, r, h => by
    simp only [foldlM_nil, pure, Except.pure, Except.ok.injEq] at h
    simp [h]
  | a :: l, init, r, h => by
    rw [foldlM_cons, Except.bind_eq_ok] at h
    obtain ⟨s, hs, hrest⟩ := h
    rw [foldlM_except_sum hg hrest, hg init a s hs, map_cons, sum_cons, Int.add_assoc]

end List
