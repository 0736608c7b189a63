import Stegos.Lib.Except
import Stegos.Lib.TreeMap

/-!
# Loops that insert fresh keys

A loop that inserts the key of each element into a set (or a map), failing
at the first key already there, succeeds exactly when the keys are distinct
and none is in the set to begin with; the set it ends with holds its keys and
those of the elements. The set is any type with a membership and an insertion
that adds one key (`hins`). Of the step it is enough that it succeeds only on
a fresh key, inserting it (`hok`), for the first direction, and that it
succeeds on a fresh key (`hfresh`) for the second; a step that tests the key
and fails or inserts has both (`fresh_ok_of_eq_ite`, `fresh_exists_of_eq_ite`).

A loop that inserts fresh keys into a map with values it computes keeps the
entries it started with, and each entry it adds has the property its step
gives the value (`foldlM_insert_values`); with one value for all keys, it ends
with that value at the keys (`foldlM_insert_const`); one that inserts fresh
keys with any values succeeds over distinct keys (`foldlM_insert_keys`). A loop that inserts under each key
the value it reads for it ends with the values read for its keys and the other
entries kept (`foldlM_insert_read`).
-/

namespace List

variable {ε α γ K : Type} [Membership K γ]
  {key : α → K} {ins : γ → α → γ} {err : α → ε} {f : γ → α → Except ε γ}

section Ok

variable (hok : ∀ s a s', f s a = .ok s' → key a ∉ s ∧ s' = ins s a)
  (hins : ∀ s a k, k ∈ ins s a ↔ k = key a ∨ k ∈ s)
include hok hins

/-- A successful loop met distinct keys, none in the set it started from, and
    ends with their keys added. -/
theorem foldlM_fresh_ok :
    ∀ {l : List α} {s s' : γ}, l.foldlM f s = .ok s' →
      (l.map key).Nodup ∧ (∀ a ∈ l, key a ∉ s) ∧ ∀ k, k ∈ s' ↔ k ∈ l.map key ∨ k ∈ s
  | [], s, s', h => by
    simp only [foldlM_nil, pure, Except.pure, Except.ok.injEq] at h
    subst h
    simp
  | a :: l, s, s', h => by
    rw [foldlM_cons, Except.bind_eq_ok] at h
    obtain ⟨s₁, h₁, hrest⟩ := h
    obtain ⟨ha, rfl⟩ := hok s a s₁ h₁
    obtain ⟨hnodup, hfresh, hmem⟩ := foldlM_fresh_ok hrest
    -- the key of `a` is in the set the rest of the loop starts from
    have hne : ∀ b ∈ l, key b ≠ key a := fun b hb heq => hfresh b hb ((hins s a _).2 (.inl heq))
    refine ⟨nodup_cons.2 ⟨?_, hnodup⟩, ?_, fun k => ?_⟩
    · simpa using fun b hb => hne b hb
    · intro b hb
      rcases mem_cons.1 hb with rfl | hb
      · exact ha
      · exact fun hbs => hfresh b hb ((hins s a _).2 (.inr hbs))
    · rw [hmem, hins, map_cons, mem_cons, @or_comm (k = key a) (k ∈ map key l), or_assoc]

end Ok

section Exists

variable (hfresh : ∀ s a, key a ∉ s → f s a = .ok (ins s a))
  (hins : ∀ s a k, k ∈ ins s a ↔ k = key a ∨ k ∈ s)
include hfresh hins

/-- A loop over distinct keys, none in the set it starts from, succeeds. -/
theorem foldlM_fresh_exists :
    ∀ {l : List α} {s : γ}, (l.map key).Nodup → (∀ a ∈ l, key a ∉ s) →
      ∃ s', l.foldlM f s = .ok s'
  | [], s, _, _ => ⟨s, rfl⟩
  | a :: l, s, hnodup, hfresh' => by
    rw [map_cons, nodup_cons] at hnodup
    have ha : f s a = .ok (ins s a) := hfresh s a (hfresh' a mem_cons_self)
    have hrest : ∀ b ∈ l, key b ∉ ins s a := by
      intro b hb hbs
      rcases (hins s a _).1 hbs with heq | hbs
      · exact hnodup.1 (heq ▸ mem_map_of_mem hb)
      · exact hfresh' b (mem_cons_of_mem a hb) hbs
    obtain ⟨s', hs'⟩ := foldlM_fresh_exists hnodup.2 hrest
    exact ⟨s', by rw [foldlM_cons, ha]; exact hs'⟩

end Exists

section Ite

variable [∀ (k : K) (s : γ), Decidable (k ∈ s)]
  (hf : ∀ s a, f s a = if key a ∈ s then .error (err a) else .ok (ins s a))
include hf

/-- A step that fails on a key already there succeeds only on a fresh key. -/
theorem fresh_ok_of_eq_ite : ∀ s a s', f s a = .ok s' → key a ∉ s ∧ s' = ins s a := by
  intro s a s' h
  rw [hf] at h
  split at h
  · cases h
  case isFalse ha =>
    cases h
    exact ⟨ha, rfl⟩

/-- A step that fails on a key already there succeeds on a fresh key. -/
theorem fresh_exists_of_eq_ite : ∀ s a, key a ∉ s → f s a = .ok (ins s a) := by
  intro s a ha
  rw [hf, if_neg ha]

end Ite

section Values

variable {β : Type} [Ord K] [Std.TransOrd K] [Std.LawfulEqOrd K]
  {g : Std.ExtTreeMap K β compare → α → Except ε (Std.ExtTreeMap K β compare)}

/-- A loop whose step on each element inserts the element's key, fresh, with
    a value of which `Q` holds keeps the entries it started from, adds only
    entries of which `Q` holds, and ends with an entry for every element. -/
theorem foldlM_insert_values (key : α → K) (Q : K → β → Prop) :
    ∀ {l : List α}, (∀ a ∈ l, ∀ m m', g m a = .ok m' →
      ∃ v, m[key a]? = none ∧ Q (key a) v ∧ m' = m.insert (key a) v) →
      ∀ {init r : Std.ExtTreeMap K β compare}, l.foldlM g init = .ok r →
        (∀ (k : K) (v : β), init[k]? = some v → r[k]? = some v) ∧
        (∀ (k : K) (v : β), r[k]? = some v → init[k]? = some v ∨ Q k v) ∧
        ∀ a ∈ l, ∃ v, r[key a]? = some v ∧ Q (key a) v
  | [], _, init, r, h => by
    simp only [foldlM_nil, pure, Except.pure, Except.ok.injEq] at h
    subst h
    exact ⟨fun _ _ => id, fun _ _ => .inl, by simp⟩
  | a :: l, hstep, init, r, h => by
    rw [foldlM_cons, Except.bind_eq_ok] at h
    obtain ⟨m, hm, hrest⟩ := h
    obtain ⟨v, hfresh, hq, rfl⟩ := hstep a mem_cons_self init m hm
    obtain ⟨hkeep, hnew, hall⟩ :=
      foldlM_insert_values key Q (fun b hb => hstep b (mem_cons_of_mem a hb)) hrest
    refine ⟨fun k w hk => hkeep k w ?_, fun k w hk => ?_, fun b hb => ?_⟩
    · -- the inserted key was fresh, so it is none of the entries kept
      have hne : key a ≠ k := by
        rintro rfl
        rw [hfresh] at hk
        cases hk
      simpa [Std.ExtTreeMap.getElem?_insert, hne] using hk
    · rcases hnew k w hk with hk | hq'
      · by_cases hka : key a = k
        · subst hka
          simp only [Std.ExtTreeMap.getElem?_insert_self, Option.some.injEq] at hk
          exact .inr (hk ▸ hq)
        · simp only [Std.ExtTreeMap.getElem?_insert, Std.LawfulEqOrd.compare_eq_iff_eq, hka,
            if_false] at hk
          exact .inl hk
      · exact .inr hq'
    · rcases mem_cons.1 hb with rfl | hb
      · exact ⟨v, hkeep _ _ Std.ExtTreeMap.getElem?_insert_self, hq⟩
      · exact hall b hb

/-- A loop whose step inserts under a key the value read for it, on a list
    of keys that all read, ends with the values read for the keys of the list
    and the other entries it started from. -/
theorem foldlM_insert_read
    (G : Std.ExtTreeMap K β compare → K → Except ε (Std.ExtTreeMap K β compare))
    {read : K → Except ε (Option β)} (hG : ∀ m k v, read k = .ok (some v) → G m k = .ok (m.insert k v)) :
    ∀ (l : List K) (init : Std.ExtTreeMap K β compare), (∀ k ∈ l, ∃ v, read k = .ok (some v)) →
      ∃ r, l.foldlM G init = .ok r ∧
        ∀ (k : K) (v : β), r[k]? = some v ↔
          (init[k]? = some v ∧ k ∉ l) ∨ (k ∈ l ∧ read k = .ok (some v))
  | [], init, _ => ⟨init, rfl, by simp⟩
  | a :: l, init, hread => by
    obtain ⟨w, ha⟩ := hread a mem_cons_self
    obtain ⟨r, hr, hiff⟩ :=
      foldlM_insert_read G hG l (init.insert a w) (fun k hk => hread k (mem_cons_of_mem a hk))
    refine ⟨r, by rw [foldlM_cons, hG init a w ha]; exact hr, fun k v => ?_⟩
    rw [hiff]
    -- the key read first is read again if the rest repeats it
    by_cases hk : k = a
    · subst hk
      simp only [Std.ExtTreeMap.getElem?_insert_self, Option.some.injEq, mem_cons, true_or,
        not_true_eq_false, and_false, false_or, true_and, ha, Except.ok.injEq]
      tauto
    · simp [Std.ExtTreeMap.getElem?_insert, Ne.symm hk, hk]

/-- A loop whose step inserts the key of each element, fresh, with one value
    `v`, and fails on a key already there: a successful one ends with the
    entries it started from and `v` at the keys of the elements. -/
theorem foldlM_insert_const (key : α → K) (v : β)
    (hg : ∀ m a, g m a = if key a ∈ m then .error (err a) else .ok (m.insert (key a) v))
    {l : List α} {init r : Std.ExtTreeMap K β compare} (h : l.foldlM g init = .ok r) :
    ∀ k w, r[k]? = some w ↔ init[k]? = some w ∨ (k ∈ l.map key ∧ w = v) := by
  have hstep : ∀ a ∈ l, ∀ m m', g m a = .ok m' →
      ∃ w, m[key a]? = none ∧ (key a ∈ l.map key ∧ w = v) ∧ m' = m.insert (key a) w := by
    intro a ha m m' hm
    rw [hg] at hm
    split at hm
    · cases hm
    · rename_i hnot
      cases hm
      exact ⟨v, Std.ExtTreeMap.getElem?_eq_none hnot, ⟨mem_map_of_mem ha, rfl⟩, rfl⟩
  obtain ⟨hkeep, hnew, hall⟩ :=
    foldlM_insert_values key (fun k w => k ∈ l.map key ∧ w = v) hstep h
  intro k w
  refine ⟨hnew k w, ?_⟩
  rintro (hk | ⟨hk, rfl⟩)
  · exact hkeep k w hk
  · obtain ⟨a, ha, rfl⟩ := mem_map.1 hk
    obtain ⟨w', hw', -, rfl⟩ := hall a ha
    exact hw'

/-- A loop whose step, on a map without the key of its element, inserts that
    key with some value, over distinct keys none of which is in the map it
    starts from: it succeeds, and ends with those keys and the ones it
    started with. -/
theorem foldlM_insert_keys (key : α → K)
    (hg : ∀ m a, key a ∉ m → ∃ v, g m a = .ok (m.insert (key a) v)) :
    ∀ {l : List α} {init : Std.ExtTreeMap K β compare} {res : Except ε (Std.ExtTreeMap K β compare)},
      l.foldlM g init = res → (l.map key).Nodup → (∀ a ∈ l, key a ∉ init) →
        ∃ r, res = .ok r ∧ ∀ k, k ∈ r ↔ k ∈ l.map key ∨ k ∈ init
  | [], init, res, h, _, _ => ⟨init, h.symm, by simp⟩
  | a :: l, init, res, h, hnodup, hfresh => by
    rw [map_cons, nodup_cons] at hnodup
    obtain ⟨v, hv⟩ := hg init a (hfresh a mem_cons_self)
    -- the keys of the rest are none of those of the map after the first step
    have hrest : ∀ b ∈ l, key b ∉ init.insert (key a) v := by
      intro b hb hbm
      rcases Std.ExtTreeMap.mem_insert_iff.1 hbm with heq | hbm
      · exact hnodup.1 (heq ▸ mem_map_of_mem hb)
      · exact hfresh b (mem_cons_of_mem a hb) hbm
    rw [foldlM_cons, hv] at h
    obtain ⟨r, hr, hmem⟩ := foldlM_insert_keys key hg h hnodup.2 hrest
    refine ⟨r, hr, fun k => ?_⟩
    rw [hmem, Std.ExtTreeMap.mem_insert_iff, map_cons, mem_cons]
    tauto

end Values

end List
