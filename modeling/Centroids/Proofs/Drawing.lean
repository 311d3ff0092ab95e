import Centroids.Proofs.Sizes
import Centroids.Proofs.ExactRuns

/-! Which places a draw with weights can give.  A place without a weight does not move the end of its
part of the unit interval, and its clock never wins a race; so when no number that is drawn is
zero, only places with a weight are drawn. -/
namespace Centroids

namespace Random

/-- None of so many numbers that are drawn next is zero. -/
def lively : Nat → Generator → Bool
  | 0, _ => true
  | n + 1, g =>
    match grain g with
    | .ok k g' => k != 0 && lively n g'
    | .error _ _ => false

/-- A number that is drawn and is not zero. -/
def IsGrain (k : Nat) : Prop := 0 < k ∧ k < 2 ^ 53

theorem exists_mapM_grain {β γ : Type} (f : β → Nat → γ) (xs : List β) {g : Generator}
    (h : lively xs.length g = true) : ∃ ks g',
      (xs.mapM fun x => return f x (← grain) : Random (List γ)) g = .ok (List.zipWith f xs ks) g' ∧
      ks.length = xs.length ∧ ∀ k ∈ ks, IsGrain k := by
  induction xs generalizing g with
  | nil => exact ⟨[], g, rfl, rfl, by simp⟩
  | cons x xs ih =>
    rw [List.length_cons] at h
    unfold lively at h
    split at h
    · rename_i k u hgrain
      obtain ⟨hk, hrest⟩ : k ≠ 0 ∧ lively xs.length u = true := by simpa using h
      obtain ⟨ks, v, hmap, hlength, hks⟩ := ih hrest
      refine ⟨k :: ks, v, ?_, by simp [hlength], ?_⟩
      · exact step_mapM_cons_eq_ok.2
          ⟨f x k, u, _, step_bind_eq_ok.2 ⟨k, u, hgrain, rfl⟩, hmap, rfl⟩
      · rw [List.forall_mem_cons]
        exact ⟨⟨by omega, grain_eq_ok hgrain⟩, hks⟩
    · cases h

section Shares

variable {ω : Type} [Sampled ω] {shares : List ω}

/-- Where the part of the unit interval that belongs to the first places ends. -/
def reach (shares : List ω) (i : Nat) : ω :=
  Scalar.total (shares.take i) / Scalar.total shares

theorem getElem?_runningSums (start : ω) (weights : List ω) {i : Nat} (hi : i < weights.length) :
    (runningSums start weights)[i]? = some ((weights.take (i + 1)).foldl (· + ·) start) := by
  induction weights generalizing start i with
  | nil => simp at hi
  | cons w weights ih =>
    cases i with
    | zero => simp [runningSums]
    | succ i => simpa [runningSums] using ih (start + w) (by simpa using hi)

theorem getLastD_runningSums (hne : shares ≠ []) :
    (runningSums 0 shares).getLastD 0 = Scalar.total shares := by
  have hpos := List.length_pos_iff.2 hne
  have hlast := getElem?_runningSums 0 shares (i := shares.length - 1) (by omega)
  rw [show shares.length - 1 + 1 = shares.length by omega, List.take_length] at hlast
  rw [List.getLastD_eq_getLast?, List.getLast?_eq_getElem?, length_runningSums, hlast]
  rfl

theorem getElem?_thresholds {i : Nat} (hi : i + 1 < shares.length) :
    (thresholds shares)[i]? = some (reach shares (i + 1)) := by
  have hne : shares ≠ [] := List.ne_nil_of_length_pos (by omega)
  have hsum := getElem?_runningSums 0 shares (i := i) (by omega)
  have hinit : i < (runningSums 0 shares).dropLast.length := by
    rw [List.length_dropLast, length_runningSums]
    omega
  unfold thresholds
  dsimp only
  rw [getLastD_runningSums hne, List.getElem?_append_left (by simpa using hinit),
    List.getElem?_map, List.getElem?_dropLast, if_pos (by simpa using hinit), hsum]
  rfl

theorem getElem?_thresholds_last (shares : List ω) :
    (thresholds shares)[shares.length - 1]? = some (Scalar.ofNat 1) := by
  have hlength : ((runningSums 0 shares).dropLast.map
      (· / (runningSums 0 shares).getLastD 0)).length = shares.length - 1 := by
    simp [length_runningSums]
  unfold thresholds
  dsimp only
  rw [List.getElem?_append_right hlength.le, hlength, Nat.sub_self]
  rfl

/-- How many numbers a draw with weights takes. -/
def grains (places count : Nat) : Nat := if count = 1 then places else count

/-- The place in the part of which a number lies. -/
def place (shares : List ω) (k : Nat) : Nat :=
  ((thresholds shares).takeWhile (Scalar.lt · (Sampled.uniform k))).length

/-- How fast each place is in a race. -/
def speeds (shares : List ω) (ks : List Nat) : List ω :=
  List.zipWith (fun s k => s / Sampled.exponential k) shares ks

/-- What draws rely on: shares are probabilities, a share that is not above zero is idle and another
one is not, and the ends of the parts lie on either side of each number that is drawn. -/
structure Fair (shares : List ω) : Prop where
  sampleable : Sampleable shares
  speed : ∀ s ∈ shares, ∀ k, IsGrain k → Scalar.isNaN (s / Sampled.exponential k) = false ∧
    (Scalar.lt 0 (s / Sampled.exponential k) = true → Scalar.lt 0 s = true)
  fast : ∃ s ∈ shares, ∀ k, IsGrain k → Scalar.lt 0 (s / Sampled.exponential k) = true
  start : ∀ k, IsGrain k → Scalar.lt (reach shares 0) (Sampled.uniform k) = true
  idle : ∀ k, IsGrain k → ∀ i s, shares[i]? = some s → Scalar.lt 0 s = false →
    Scalar.lt (reach shares i) (Sampled.uniform k) =
      Scalar.lt (reach shares (i + 1)) (Sampled.uniform k)
  whole : ∀ k, IsGrain k → Scalar.lt (reach shares shares.length) (Sampled.uniform k) = false
  one : ∀ k, IsGrain k → Scalar.lt (Scalar.ofNat 1) (Sampled.uniform k : ω) = false

namespace Fair

variable (h : Fair shares)
include h

theorem ne_nil : shares ≠ [] := by
  obtain ⟨s, hs, -⟩ := h.fast
  exact List.ne_nil_of_mem hs

/-- An end is compared like the sum of the shares up to it. -/
theorem lt_thresholds {k i : Nat} (hk : IsGrain k) (hi : i < shares.length) : ∃ e,
    (thresholds shares)[i]? = some e ∧
      Scalar.lt e (Sampled.uniform k) = Scalar.lt (reach shares (i + 1)) (Sampled.uniform k) := by
  obtain hinner | hlast : i + 1 < shares.length ∨ i + 1 = shares.length := by omega
  · exact ⟨_, getElem?_thresholds hinner, rfl⟩
  · refine ⟨_, ?_, (h.one k hk).trans ?_⟩
    · rw [show i = shares.length - 1 by omega]
      exact getElem?_thresholds_last shares
    · rw [hlast, h.whole k hk]

/-- The part of the unit interval in which a number lies belongs to a place that is not idle. -/
theorem exists_share {k : Nat} (hk : IsGrain k) :
    ∃ s, shares[place shares k]? = some s ∧ Scalar.lt 0 s = true := by
  have hlength := length_thresholds h.ne_nil
  unfold place
  rw [List.takeWhile_eq_take_findIdx_not, List.length_take_of_le List.findIdx_le_length]
  generalize hplace : (thresholds shares).findIdx _ = i
  have hi : i < shares.length := by
    rw [← hplace, ← hlength]
    refine List.findIdx_lt_length_of_exists ⟨_, List.mem_of_getElem?
      (getElem?_thresholds_last shares), ?_⟩
    simp [h.one k hk]
  refine ⟨shares[i], List.getElem?_eq_getElem hi, ?_⟩
  by_contra hidle
  have hsame := h.idle k hk i _ (List.getElem?_eq_getElem hi) (by simpa using hidle)
  obtain ⟨e, he, hcompare⟩ := h.lt_thresholds hk hi
  have habove : Scalar.lt e (Sampled.uniform k) = false := by
    subst hplace
    simpa using List.findIdx_of_getElem?_eq_some he
  rw [← hcompare, habove] at hsame
  cases i with
  | zero =>
    rw [h.start k hk] at hsame
    cases hsame
  | succ i =>
    obtain ⟨e', he', hcompare'⟩ := h.lt_thresholds hk (Nat.lt_of_succ_lt hi)
    obtain ⟨hbound, rfl⟩ := List.getElem?_eq_some_iff.1 he'
    have hlt : i < (thresholds shares).findIdx (fun e => !Scalar.lt e (Sampled.uniform k)) :=
      hplace.symm ▸ Nat.lt_succ_self i
    have hbelow := List.not_of_lt_findIdx hlt
    rw [← hcompare'] at hsame
    simp [hsame] at hbelow

/-- An idle place does not win a race. -/
theorem exists_winner [Ranked ω] {ks : List Nat} (hlength : ks.length = shares.length)
    (hks : ∀ k ∈ ks, IsGrain k) :
    ∃ s, shares[Scalar.argmax (speeds shares ks)]? = some s ∧ Scalar.lt 0 s = true := by
  obtain ⟨fastest, hmem, hfast⟩ := h.fast
  obtain ⟨i, hi, rfl⟩ := List.mem_iff_getElem.1 hmem
  have hpair : ∀ (j : Nat) (x : ω), (speeds shares ks)[j]? = some x → ∃ s ∈ shares, ∃ k ∈ ks,
      shares[j]? = some s ∧ s / Sampled.exponential k = x := by
    intro j x hx
    obtain ⟨s, k, hs, hk, rfl⟩ := List.getElem?_zipWith_eq_some.1 hx
    exact ⟨s, List.mem_of_getElem? hs, k, List.mem_of_getElem? hk, hs, rfl⟩
  have hnumber : ∀ x ∈ speeds shares ks, Scalar.isNaN x = false := by
    intro x hx
    obtain ⟨j, hj⟩ := List.mem_iff_getElem?.1 hx
    obtain ⟨s, hs, k, hk, -, rfl⟩ := hpair j x hj
    exact (h.speed s hs k (hks k hk)).1
  have hki : i < ks.length := hlength ▸ hi
  have hracing : shares[i] / Sampled.exponential ks[i] ∈ speeds shares ks :=
    List.mem_of_getElem? (List.getElem?_zipWith_eq_some.2 ⟨_, _, List.getElem?_eq_getElem hi,
      List.getElem?_eq_getElem hki, rfl⟩)
  have hahead := Scalar.le_greatest hnumber _ hracing
  obtain ⟨s, hs, k, hk, hplace, hspeed⟩ :=
    hpair _ _ (Scalar.getElem?_argmax (List.ne_nil_of_mem hracing))
  refine ⟨s, hplace, (h.speed s hs k (hks k hk)).2 ?_⟩
  rw [hspeed]
  exact Scalar.lt_of_lt_le (hfast _ (hks _ (List.getElem_mem hki))) hahead

/-- As many places are drawn as are asked for, and none is idle. -/
theorem exists_weighted [Ranked ω] {count : Nat} {g : Generator}
    (hlively : lively (grains shares.length count) g = true) :
    ∃ rows g', weighted shares count g = .ok rows g' ∧ rows.length = count ∧
      ∀ row ∈ rows, ∃ s, shares[row]? = some s ∧ Scalar.lt 0 s = true := by
  have hcheck : checkWeights shares g = .ok () g :=
    (checkWeights_cases shares g).resolve_right fun hnone => hnone.1 h.sampleable
  unfold grains at hlively
  unfold weighted
  rw [step_bind_of_ok hcheck]
  split at hlively
  · rename_i hone
    obtain ⟨ks, g', hmap, hlength, hks⟩ :=
      exists_mapM_grain (fun s k => s / Sampled.exponential k) shares hlively
    refine ⟨[Scalar.argmax (speeds shares ks)], g', ?_, by simp [hone], ?_⟩
    · rw [if_pos hone, step_bind_of_ok hmap]
      rfl
    · simpa using h.exists_winner hlength hks
  · rename_i hmany
    obtain ⟨ks, g', hmap, hlength, hks⟩ := exists_mapM_grain (fun _ k => place shares k)
      (List.range count) (by simpa using hlively)
    refine ⟨List.zipWith (fun _ k => place shares k) (List.range count) ks, g', ?_, by simp [hlength],
      ?_⟩
    · rw [if_neg hmany]
      exact hmap
    · intro row hrow
      obtain ⟨j, hj⟩ := List.mem_iff_getElem?.1 hrow
      obtain ⟨-, k, -, hk, rfl⟩ := List.getElem?_zipWith_eq_some.1 hj
      exact h.exists_share (hks k (List.mem_of_getElem? hk))

end Fair

end Shares

end Random

section Doubles

variable {k : Nat} {shares weights : List Float}

theorem size_uniform (hk : Random.IsGrain k) :
    ∃ v, HasSize v (Double.unpack (Sampled.uniform k)) ∧ 0 < v ∧ v ≤ 1 := by
  obtain ⟨hsized, hnonneg⟩ := sized_uniform hk.1 hk.2
  obtain ⟨v, hv⟩ := Small.exists_size (.inr hsized) hnonneg (by decide)
  have hge := hv.le_of_sized hsized
  have hle := hv.le_of_small (.inr hsized)
  rw [zpow_zero] at hle
  exact ⟨v, hv, lt_of_lt_of_le (by positivity) hge, hle⟩

theorem size_exponential (hk : Random.IsGrain k) : ∃ v, HasSize v
    (Double.unpack (Sampled.exponential k)) ∧ 2 ^ (-192 : Int) ≤ v ∧ v ≤ 2 ^ (13 : Int) := by
  obtain ⟨hsized, hnonneg⟩ := sized_exponential hk.1 hk.2
  obtain ⟨v, hv⟩ := Small.exists_size (.inr hsized) hnonneg (by decide)
  exact ⟨v, hv, hv.le_of_sized hsized, hv.le_of_small (.inr hsized)⟩

/-- Sizes of shares: none above one, and not all of them small. -/
structure Shared (shares : List Float) : Prop where
  size : ∀ s ∈ shares, ∃ c, HasSize c (Double.unpack s) ∧ c ≤ 1
  great : ∃ s ∈ shares, ∃ c, HasSize c (Double.unpack s) ∧ c ≤ 1 ∧ 2 ^ (-55 : Int) ≤ c

namespace Shared

variable (h : Shared shares)
include h

theorem exists_total {xs : List Float} (hxs : xs ⊆ shares) :
    ∃ a, HasSize a (Double.unpack (Scalar.total xs)) ∧ a ≤ 2 ^ (54 : Int) := by
  have hparts : ∀ s ∈ xs, Nonneg (Double.unpack s) ∧ Small (-1074) 0 (Double.unpack s) := by
    intro s hs
    obtain ⟨c, hc, hle⟩ := h.size s (hxs hs)
    refine ⟨?_, hc.small (by simpa using hle)⟩
    generalize Double.unpack s = u at hc
    cases hc <;> trivial
  obtain ⟨hnonneg, hsmall⟩ := total_nonneg (by decide) (by decide) (by decide) hparts
  obtain ⟨a, ha⟩ := hsmall.exists_size hnonneg (by decide)
  exact ⟨a, ha, ha.le_of_small hsmall⟩

/-- The sum of the shares, which is near one but for what is lost by rounding. -/
theorem exists_whole : ∃ a, HasSize a (Double.unpack (Scalar.total shares)) ∧
    2 ^ (-55 : Int) ≤ a ∧ a ≤ 2 ^ (54 : Int) := by
  obtain ⟨a, ha, hle⟩ := h.exists_total (List.Subset.refl shares)
  obtain ⟨s, hs, c, hc, -, hgreat⟩ := h.great
  have hamounts : ∀ x ∈ shares, Scalar.IsAmount x := fun x hx => by
    obtain ⟨b, hb, -⟩ := h.size x hx
    exact isAmount_of_size hb
  have hpart := (le_iff_of_size hc ha).1 (Scalar.le_total hamounts s hs)
  exact ⟨a, ha, hgreat.trans hpart, hle⟩

/-- The quotient of a partial sum. -/
theorem exists_reach {i : Nat} {a : ℚ}
    (ha : HasSize a (Double.unpack (Scalar.total (shares.take i)))) (hle : a ≤ 2 ^ (54 : Int)) :
    ∃ r, HasSize r (Double.unpack (Random.reach shares i)) ∧ (a = 0 → r = 0) := by
  obtain ⟨b, hb, hge, -⟩ := h.exists_whole
  have hpos : 0 < b := lt_of_lt_of_le (by positivity) hge
  have hbound : a / b ≤ 2 ^ (109 : Int) := by
    rw [div_le_iff₀ hpos]
    calc a ≤ 2 ^ (109 : Int) * 2 ^ (-55 : Int) := hle.trans_eq (by norm_num)
      _ ≤ 2 ^ (109 : Int) * b := by gcongr
  obtain ⟨r, hr, -, hzero, -⟩ := size_div 109 ha hb hpos (by decide) (by decide) hbound
  exact ⟨r, hr, hzero⟩

theorem lt_whole (hk : Random.IsGrain k) :
    Scalar.lt (Random.reach shares shares.length) (Sampled.uniform k) = false := by
  obtain ⟨a, ha, hge, -⟩ := h.exists_whole
  obtain ⟨v, hv, -, hle⟩ := size_uniform hk
  have hpos : 0 < a := lt_of_lt_of_le (by positivity) hge
  have hone : a / a = 1 := div_self hpos.ne'
  obtain ⟨c, hc, -, -, hlow⟩ := size_div 0 ha ha hpos (by decide) (by decide)
    (by rw [hone, zpow_zero])
  have hfull := hlow 0 (by decide) (by rw [hone, zpow_zero])
  rw [Random.reach, List.take_length, not_lt_iff_of_size hc hv]
  exact hle.trans (by simpa using hfull)

/-- A share of nothing moves no end. -/
theorem lt_reach_succ (hk : Random.IsGrain k) {i : Nat} {s : Float} (hs : shares[i]? = some s)
    (hidle : Scalar.lt 0 s = false) :
    Scalar.lt (Random.reach shares i) (Sampled.uniform k) =
      Scalar.lt (Random.reach shares (i + 1)) (Sampled.uniform k) := by
  obtain ⟨v, hv, hpos, -⟩ := size_uniform hk
  obtain ⟨c, hc, -⟩ := h.size s (List.mem_of_getElem? hs)
  obtain rfl : c = 0 := le_antisymm ((not_lt_iff_of_size size_zero hc).1 hidle) hc.nonneg
  obtain ⟨a, ha, hle⟩ := h.exists_total (List.take_subset i shares)
  have hsum : Scalar.total (shares.take (i + 1)) = Scalar.total (shares.take i) + s := by
    rw [List.take_add_one, hs, Option.toList_some, Scalar.total_concat]
  obtain ⟨hnext, hsame⟩ := size_add_zero ha hc
  rw [← hsum] at hnext hsame
  obtain ⟨r, hr, hzero⟩ := h.exists_reach ha hle
  obtain ⟨r', hr', hzero'⟩ := h.exists_reach hnext hle
  rw [Bool.eq_iff_iff, lt_iff_of_size hr hv, lt_iff_of_size hr' hv]
  by_cases hnone : a = 0
  · rw [hzero hnone, hzero' hnone]
  · rw [Random.reach, unpack_div, hsame hnone, ← unpack_div] at hr'
    rw [← lt_iff_of_size hr hv, ← lt_iff_of_size hr' hv]
    rfl

omit h in
/-- Clocks turn shares into speeds that are numbers, of which that of a great share is not zero. -/
theorem exists_speed {s : Float} {b : ℚ} (hb : HasSize b (Double.unpack s)) (hsmall : b ≤ 1)
    (hk : Random.IsGrain k) : ∃ c, HasSize c (Double.unpack (s / Sampled.exponential k)) ∧
      (b = 0 → c = 0) ∧ (2 ^ (-55 : Int) ≤ b → c ≠ 0) := by
  obtain ⟨v, hv, hge, hle⟩ := size_exponential hk
  have hpos : 0 < v := lt_of_lt_of_le (by positivity) hge
  have hbound : b / v ≤ 2 ^ (192 : Int) := by
    rw [div_le_iff₀ hpos]
    calc b ≤ 2 ^ (192 : Int) * 2 ^ (-192 : Int) := hsmall.trans_eq (by norm_num)
      _ ≤ 2 ^ (192 : Int) * v := by gcongr
  obtain ⟨c, hc, -, hzero, hlow⟩ := size_div 192 hb hv hpos (by decide) (by decide) hbound
  refine ⟨c, hc, hzero, fun hgreat => ?_⟩
  have hquotient : (2 : ℚ) ^ (-68 : Int) ≤ b / v := by
    rw [le_div_iff₀ hpos]
    calc (2 : ℚ) ^ (-68 : Int) * v ≤ 2 ^ (-68 : Int) * 2 ^ (13 : Int) := by gcongr
      _ = 2 ^ (-55 : Int) := by norm_num
      _ ≤ b := hgreat
  exact (lt_of_lt_of_le (by positivity) (hlow (-68) (by decide) hquotient)).ne'

theorem sampleable : Random.Sampleable shares := by
  obtain ⟨a, ha, hge, -⟩ := h.exists_whole
  constructor
  · intro s hs
    obtain ⟨c, hc, -⟩ := h.size s hs
    exact ⟨hc.isFinite.1, (isAmount_of_size hc).notNegative⟩
  · have hpos : Scalar.lt 0 (Scalar.total shares) = true :=
      (lt_iff_of_size size_zero ha).2 (lt_of_lt_of_le (by positivity) hge)
    rw [Ranked.lt_iff] at hpos
    rw [Bool.eq_false_iff, Ne, Ranked.beq_iff]
    exact fun heq => hpos.2.2.ne' heq.2.2

theorem fair : Random.Fair shares where
  sampleable := h.sampleable
  speed s hs k hk := by
    obtain ⟨b, hb, hle⟩ := h.size s hs
    obtain ⟨c, hc, hzero, -⟩ := exists_speed hb hle hk
    rw [pos_iff_of_size hc, pos_iff_of_size hb]
    exact ⟨(isAmount_of_size hc).isNumber, mt hzero⟩
  fast := by
    obtain ⟨s, hs, b, hb, hle, hgreat⟩ := h.great
    refine ⟨s, hs, fun k hk => ?_⟩
    obtain ⟨c, hc, -, hpos⟩ := exists_speed hb hle hk
    exact (pos_iff_of_size hc).2 (hpos hgreat)
  start k hk := by
    obtain ⟨v, hv, hpos, -⟩ := size_uniform hk
    obtain ⟨r, hr, hzero⟩ := h.exists_reach (i := 0) size_zero (by positivity)
    rw [lt_iff_of_size hr hv, hzero rfl]
    exact hpos
  idle k hk i s hs hidle := h.lt_reach_succ hk hs hidle
  whole k hk := h.lt_whole hk
  one k hk := by
    obtain ⟨v, hv, -, hle⟩ := size_uniform hk
    exact (not_lt_iff_of_size size_one hv).2 hle

end Shared

section Weights

variable {w : Float} {a t : ℚ} (ht : HasSize t (Double.unpack (Scalar.total weights))) (htpos : 0 < t)

include ht htpos in
/-- A share is at most one, great if its weight is, and nothing if its weight is. -/
theorem size_share (ha : HasSize a (Double.unpack w)) (hle : a ≤ t) :
    ∃ c, HasSize c (Double.unpack (w / Scalar.total weights)) ∧ c ≤ 1 ∧ (a = 0 → c = 0) ∧
      (2 ^ (-55 : Int) ≤ a / t → 2 ^ (-55 : Int) ≤ c) := by
  obtain ⟨c, hc, hone, hzero, hlow⟩ := size_div 0 ha ht htpos (by decide) (by decide)
    (by rw [zpow_zero]; exact (div_le_one htpos).2 hle)
  exact ⟨c, hc, by simpa using hone, hzero, hlow (-55) (by decide)⟩

variable (hamounts : ∀ w ∈ weights, Scalar.IsAmount w)
include hamounts

theorem size_of_weight (ht : HasSize t (Double.unpack (Scalar.total weights))) (hw : w ∈ weights) :
    ∃ a, HasSize a (Double.unpack w) ∧ a ≤ t := by
  have hle := Scalar.le_total hamounts w hw
  obtain ⟨a, ha⟩ := exists_size_of_le (hamounts w hw) ht hle
  exact ⟨a, ha, (le_iff_of_size ha ht).1 hle⟩

include ht htpos

/-- However many weights there are, one is not small in relation to their sum. -/
theorem exists_great_weight :
    ∃ w ∈ weights, ∃ a, HasSize a (Double.unpack w) ∧ a ≤ t ∧ 2 ^ (-55 : Int) ≤ a / t := by
  have hne : weights ≠ [] := by
    rintro rfl
    exact absurd htpos (by cases ht; decide)
  have hmem := Scalar.greatest_mem hne
  obtain ⟨v, hv, hle⟩ := size_of_weight hamounts ht hmem
  have hgreatest : ∀ w ∈ weights, ∃ a, HasSize a (Double.unpack w) ∧ a ≤ v := by
    intro w hw
    obtain ⟨a, ha, -⟩ := size_of_weight hamounts ht hw
    have hmost := Scalar.le_greatest (fun w hw => (hamounts w hw).isNumber) w hw
    exact ⟨a, ha, (le_iff_of_size ha hv).1 hmost⟩
  refine ⟨_, hmem, v, hv, hle, ?_⟩
  rw [le_div_iff₀ htpos]
  calc (2 : ℚ) ^ (-55 : Int) * t ≤ 2 ^ (-55 : Int) * (2 ^ (55 : Int) * v) := by
        gcongr
        exact size_total_le hv hgreatest ht
    _ = v := by rw [← mul_assoc]; norm_num

omit ht htpos in
/-- Amounts with a finite sum become shares of it, and only an amount that is not zero becomes one
that is not. -/
theorem shared_of_weights (hfinite : Scalar.isFinite (Scalar.total weights) = true)
    (hpos : Scalar.lt 0 (Scalar.total weights) = true) :
    Shared (weights.map (· / Scalar.total weights)) ∧
      ∀ w ∈ weights, Scalar.lt 0 (w / Scalar.total weights) = true → Scalar.lt 0 w = true := by
  obtain ⟨t, ht⟩ := exists_size_of_finite (Scalar.isAmount_total hamounts) hfinite
  have htpos := (lt_iff_of_size size_zero ht).1 hpos
  refine ⟨⟨?_, ?_⟩, ?_⟩
  · intro s hs
    obtain ⟨w, hw, rfl⟩ := List.mem_map.1 hs
    obtain ⟨a, ha, hle⟩ := size_of_weight hamounts ht hw
    obtain ⟨c, hc, hone, -⟩ := size_share ht htpos ha hle
    exact ⟨c, hc, hone⟩
  · obtain ⟨w, hw, a, ha, hle, hmost⟩ := exists_great_weight ht htpos hamounts
    obtain ⟨c, hc, hone, -, hgreat⟩ := size_share ht htpos ha hle
    exact ⟨_, List.mem_map_of_mem hw, c, hc, hone, hgreat hmost⟩
  · intro w hw
    obtain ⟨a, ha, hle⟩ := size_of_weight hamounts ht hw
    obtain ⟨c, hc, -, hzero, -⟩ := size_share ht htpos ha hle
    rw [pos_iff_of_size hc, pos_iff_of_size ha]
    exact mt hzero

end Weights

end Doubles

namespace Exact

section Weights

variable {F : Type} [Field F] [LinearOrder F] [Analytic F] [IsStrictOrderedRing F]
  {weights shares : List F} {k : Nat}

theorem uniform_bounds (hk : Random.IsGrain k) :
    0 < (Sampled.uniform k : F) ∧ (Sampled.uniform k : F) ≤ 1 := by
  have hpos : (0 : F) < k := by exact_mod_cast hk.1
  have hle : (k : F) ≤ 2 ^ 53 := by exact_mod_cast hk.2.le
  exact ⟨div_pos hpos (by positivity), (div_le_one (by positivity)).2 hle⟩

/-- Shares of one are fair, where clocks do not stand still. -/
theorem fair_of_whole (hclocks : ∀ k, Random.IsGrain k → 0 < (Analytic.exponential k : F))
    (hsampleable : Random.Sampleable shares) (hnonneg : ∀ s ∈ shares, 0 ≤ s)
    (hone : Scalar.total shares = 1) : Random.Fair shares where
  sampleable := hsampleable
  speed s hs k hk := by
    refine ⟨isNaN_eq_false _, fun hmoves => ?_⟩
    rw [lt_iff] at hmoves ⊢
    exact (div_pos_iff_of_pos_right (hclocks k hk)).1 hmoves
  fast := by
    have hsome : ∃ s ∈ shares, s ≠ 0 := by
      by_contra hnone
      push Not at hnone
      rw [total_eq_sum, List.sum_eq_zero hnone] at hone
      exact zero_ne_one hone
    obtain ⟨s, hs, hne⟩ := hsome
    refine ⟨s, hs, fun k hk => (lt_iff _ _).2 ?_⟩
    exact div_pos (lt_of_le_of_ne (hnonneg s hs) hne.symm) (hclocks k hk)
  start k hk := by
    rw [lt_iff]
    simpa [Random.reach] using (uniform_bounds hk).1
  idle k hk i s hs hidle := by
    have hzero : s = 0 :=
      le_antisymm ((not_lt_iff 0 s).1 hidle) (hnonneg s (List.mem_of_getElem? hs))
    have hsum : Scalar.total (shares.take (i + 1)) = Scalar.total (shares.take i) := by
      rw [List.take_add_one, hs, Option.toList_some, Scalar.total_concat, hzero, add_zero]
    rw [Random.reach, Random.reach, hsum]
  whole k hk := by
    rw [Random.reach, List.take_length, hone, not_lt_iff, div_one]
    exact (uniform_bounds hk).2
  one k hk := by
    rw [not_lt_iff]
    exact (uniform_bounds hk).2.trans_eq Nat.cast_one.symm

end Weights

end Exact

end Centroids
