import ProofStell.Lib.Machine
import Mathlib.Data.List.Induction
import Mathlib.Data.List.Pairwise
import Mathlib.Tactic.Common
import Mathlib.Tactic.Ring
import Mathlib.Algebra.Order.Ring.Nat

/-! Token buckets as potential functions: what a chain of grants can take out of a
bucket of capacity `B` that refills at rate `r`. -/
namespace TokenBucket

structure Bucket where
  level : Nat
  stamp : Nat

/-- A grant at time `t` takes `c` tokens out of at most the capacity and at most
what has accrued since the last grant. A bucket that was never used is full. -/
structure Grant (B r c : Nat) (before : Option Bucket) (t : Nat) (after : Bucket) : Prop where
  stamp : after.stamp = t
  capacity : after.level+c ≤ B
  accrued : ∀ b, before = some b → after.level+c ≤ b.level+r*(t-b.stamp)

/-- Grants at the listed times, each from where the one before it left the bucket. -/
inductive Grants (B r c : Nat) : Option Bucket → List Nat → Prop
  | nil (b : Option Bucket) : Grants B r c b []
  | cons {b : Option Bucket} {t : Nat} {b' : Bucket} {ts : List Nat} :
      Grant B r c b t b' → Grants B r c (some b') ts → Grants B r c b (t::ts)

theorem Grants.level_bound {B r c : Nat} {ts : List Nat} {b : Bucket} {t2 : Nat}
    (hg : Grants B r c (some b) ts) (hs : ts.Pairwise (· ≤ ·))
    (hlo : ∀ t∈ts, b.stamp ≤ t) (hhi : ∀ t∈ts, t ≤ t2) :
    c*ts.length ≤ b.level+r*(t2-b.stamp) := by
  induction ts generalizing b with
  | nil => simp
  | cons t ts ih =>
    cases hg with
    | @cons _ _ b' _ hgrant hrest =>
      obtain ⟨hlater,hs'⟩ := List.pairwise_cons.mp hs
      have ht1 := hlo t List.mem_cons_self
      have ht2 := hhi t List.mem_cons_self
      have hstamp := hgrant.stamp
      have hstep := hgrant.accrued b rfl
      have htail := ih hrest hs' (by rw [hstamp]; exact hlater)
        fun u hu => hhi u (List.mem_cons_of_mem t hu)
      rw [hstamp] at htail
      have hsplit : t2-b.stamp = (t-b.stamp)+(t2-t) := by omega
      calc
        c*(t::ts).length = c*ts.length+c := by rw [List.length_cons,Nat.mul_succ]
        _ ≤ b'.level+r*(t2-t)+c := by omega
        _ ≤ b.level+r*(t-b.stamp)+r*(t2-t) := by omega
        _ = b.level+r*(t2-b.stamp) := by rw [hsplit,Nat.mul_add,Nat.add_assoc]

/-- Whatever the bucket held before, a window lets through one full bucket and
what accrues during the window. -/
theorem Grants.window_bound {B r c : Nat} {ts : List Nat} {b : Option Bucket} (t1 t2 : Nat)
    (hg : Grants B r c b ts) (hs : ts.Pairwise (· ≤ ·)) (hlo : ∀ t∈ts, t1 ≤ t)
    (hhi : ∀ t∈ts, t ≤ t2) : c*ts.length ≤ B+r*(t2-t1) := by
  cases hg with
  | nil => simp
  | @cons _ t b' ts hgrant hrest =>
    obtain ⟨hlater,hs'⟩ := List.pairwise_cons.mp hs
    have ht1 := hlo t List.mem_cons_self
    have hstamp := hgrant.stamp
    have hcap := hgrant.capacity
    have htail := hrest.level_bound hs' (by rw [hstamp]; exact hlater)
      fun u hu => hhi u (List.mem_cons_of_mem t hu)
    rw [hstamp] at htail
    have hmono : r*(t2-t) ≤ r*(t2-t1) := Nat.mul_le_mul_left r (by omega)
    calc
      c*(t::ts).length = c*ts.length+c := by rw [List.length_cons,Nat.mul_succ]
      _ ≤ b'.level+r*(t2-t)+c := by omega
      _ ≤ B+r*(t2-t1) := by omega

def Bucket.refill (B r t : Nat) (b : Bucket) : Nat := min B (b.level+r*(t-b.stamp))

/-- One request at time `t`: the accrued tokens are folded in whether it is granted
or not. -/
def consume (B r c t : Nat) (b : Bucket) : Bool × Bucket :=
  if c ≤ b.refill B r t then (true,⟨b.refill B r t-c,t⟩) else (false,⟨b.refill B r t,t⟩)

theorem consume_congr {B r c t : Nat} {b b' : Bucket} (h : b.refill B r t = b'.refill B r t) :
    consume B r c t b = consume B r c t b' := by
  rw [consume,consume,h]

theorem refill_full {B r t u : Nat} {b : Bucket} (h : b.refill B r t = B) (htu : t ≤ u) :
    b.refill B r u = B := by
  have hmono : r*(t-b.stamp) ≤ r*(u-b.stamp) := Nat.mul_le_mul_left r (by omega)
  rw [Bucket.refill] at h ⊢
  omega

@[simp] theorem consume_stamp (B r c t : Nat) (b : Bucket) : (consume B r c t b).2.stamp = t := by
  rw [consume]
  split <;> rfl

theorem consume_level (B r c t : Nat) (b : Bucket) :
    (consume B r c t b).2.level+c*(consume B r c t b).1.toNat = b.refill B r t := by
  rw [consume]
  split
  · simp only [Bool.toNat_true,Nat.mul_one]
    omega
  · simp

theorem consume_level_lt {B r c : Nat} (hc : 0 < c) (hB : c ≤ B) (t : Nat) (b : Bucket) :
    (consume B r c t b).2.level < B := by
  have hcap : b.refill B r t ≤ B := Nat.min_le_left _ _
  rw [consume]
  split
  · simp only
    omega
  · simp only
    omega

theorem accrual_split {r s now t : Nat} (hs : s ≤ now) (hnow : now ≤ t) :
    r*(t-s) = r*(now-s)+r*(t-now) := by
  rw [← Nat.mul_add]
  congr 1
  omega

/-- The bucket holds `c` tokens from the second on that the deficit, divided by the rate and
rounded up, is away. -/
theorem le_refill_iff {B r c now t : Nat} {b : Bucket} (hr : 0 < r) (hc : c ≤ B)
    (hstamp : b.stamp ≤ now) (hnow : now ≤ t) :
    c ≤ b.refill B r t ↔ now+(c-b.refill B r now+r-1)/r ≤ t := by
  have hceil : (c-b.refill B r now+r-1)/r ≤ t-now ↔
      c-b.refill B r now+r-1 ≤ r*(t-now)+(r-1) := Nat.div_le_iff_le_mul_add_pred hr
  rw [Nat.add_comm now,← Nat.le_sub_iff_add_le hnow,hceil,Bucket.refill,Bucket.refill,
    accrual_split hstamp hnow]
  omega

theorem refill_after_reject {B r c now t : Nat} {b : Bucket} (hstamp : b.stamp ≤ now)
    (hnow : now ≤ t) (hrej : b.refill B r now < c) :
    (consume B r c now b).2.refill B r t = b.refill B r t := by
  rw [consume,if_neg (by omega)]
  simp only [Bucket.refill,accrual_split hstamp hnow]
  omega

/-- A request costs whoever comes later at most its price. -/
theorem refill_le_after {B r c now t : Nat} {b : Bucket} (hstamp : b.stamp ≤ now) (hnow : now ≤ t) :
    b.refill B r t ≤ (consume B r c now b).2.refill B r t+c*(consume B r c now b).1.toNat := by
  have hlevel := consume_level B r c now b
  rw [Bucket.refill] at hlevel
  rw [Bucket.refill,Bucket.refill,consume_stamp,accrual_split hstamp hnow]
  omega

theorem idle_run {B r c : Nat} {ts : List Nat} {b : Bucket} (hs : ts.Pairwise (· ≤ ·))
    (hlo : ∀ t∈ts, b.stamp ≤ t) (hrej : ∀ t∈ts, b.refill B r t < c) :
    (∀ p∈Machine.outputs (consume B r c) ts b, p.2 = false) ∧
      ∀ u, (∀ t∈ts, t ≤ u) → (Machine.final (consume B r c) ts b).refill B r u =
        b.refill B r u := by
  induction ts generalizing b with
  | nil => exact ⟨fun p hp => (by cases hp),fun u _ => rfl⟩
  | cons t ts ih =>
    obtain ⟨hlater,hs'⟩ := List.pairwise_cons.mp hs
    have ht := hlo t List.mem_cons_self
    have hreject := hrej t List.mem_cons_self
    have hkeep : ∀ u, t ≤ u → (consume B r c t b).2.refill B r u = b.refill B r u :=
      fun u hu => refill_after_reject ht hu hreject
    obtain ⟨houts,hfinal⟩ := ih (b := (consume B r c t b).2) hs' (by simpa using hlater)
      fun u hu => by
        rw [hkeep u (hlater u hu)]
        exact hrej u (List.mem_cons_of_mem t hu)
    constructor
    · intro p hp
      obtain rfl | hp := List.mem_cons.mp hp
      · rw [consume,if_neg (by omega)]
      · exact houts p hp
    · intro u hu
      rw [Machine.final,hfinal u fun v hv => hu v (List.mem_cons_of_mem t hv),
        hkeep u (hu t List.mem_cons_self)]

def granted (B r c : Nat) (ts : List Nat) (b : Bucket) : Nat :=
  (Machine.outputs (consume B r c) ts b).countP Prod.snd

theorem granted_cons (B r c t : Nat) (ts : List Nat) (b : Bucket) :
    granted B r c (t::ts) b =
      (consume B r c t b).1.toNat+granted B r c ts (consume B r c t b).2 := by
  rw [granted,Machine.outputs,List.countP_cons,granted]
  cases (consume B r c t b).1 <;> simp [Nat.add_comm]

theorem granted_le_accrued {B r c : Nat} {ts : List Nat} {b : Bucket} {t2 : Nat}
    (hs : ts.Pairwise (· ≤ ·)) (hlo : ∀ t∈ts, b.stamp ≤ t) (hhi : ∀ t∈ts, t ≤ t2) :
    c*granted B r c ts b ≤ b.level+r*(t2-b.stamp) := by
  induction ts generalizing b with
  | nil => simp [granted,Machine.outputs]
  | cons t ts ih =>
    obtain ⟨hlater,hs'⟩ := List.pairwise_cons.mp hs
    have ht1 := hlo t List.mem_cons_self
    have ht2 := hhi t List.mem_cons_self
    have hlevel := consume_level B r c t b
    have hrefill : b.refill B r t ≤ b.level+r*(t-b.stamp) := Nat.min_le_right _ _
    have htail := ih (b := (consume B r c t b).2) hs' (by simpa using hlater)
      fun u hu => hhi u (List.mem_cons_of_mem t hu)
    rw [consume_stamp] at htail
    have hsplit : t2-b.stamp = (t-b.stamp)+(t2-t) := by omega
    calc
      c*granted B r c (t::ts) b
          = c*(consume B r c t b).1.toNat+c*granted B r c ts (consume B r c t b).2 := by
        rw [granted_cons,Nat.mul_add]
      _ ≤ b.level+r*(t-b.stamp)+r*(t2-t) := by omega
      _ = b.level+r*(t2-b.stamp) := by rw [hsplit,Nat.mul_add,Nat.add_assoc]

/-- Requests within `[t1,t2]` get at most a full bucket and what accrues meanwhile. -/
theorem granted_le_window {B r c : Nat} {ts : List Nat} {b : Bucket} {t1 t2 : Nat}
    (hs : ts.Pairwise (· ≤ ·)) (hlo : ∀ t∈ts, t1 ≤ t) (hhi : ∀ t∈ts, t ≤ t2) :
    c*granted B r c ts b ≤ B+r*(t2-t1) := by
  cases ts with
  | nil => simp [granted,Machine.outputs]
  | cons t ts =>
    obtain ⟨hlater,hs'⟩ := List.pairwise_cons.mp hs
    have ht1 := hlo t List.mem_cons_self
    have hlevel := consume_level B r c t b
    have hrefill : b.refill B r t ≤ B := Nat.min_le_left _ _
    have htail := granted_le_accrued (B := B) (r := r) (c := c) (b := (consume B r c t b).2) hs'
      (by simpa using hlater) fun u hu => hhi u (List.mem_cons_of_mem t hu)
    rw [consume_stamp] at htail
    have hmono : r*(t2-t) ≤ r*(t2-t1) := Nat.mul_le_mul_left r (by omega)
    calc
      c*granted B r c (t::ts) b
          = c*(consume B r c t b).1.toNat+c*granted B r c ts (consume B r c t b).2 := by
        rw [granted_cons,Nat.mul_add]
      _ ≤ B+r*(t2-t1) := by omega

theorem filter_append_of_sorted {ts : List Nat} (hs : ts.Pairwise (· ≤ ·)) (u : Nat) :
    ts.filter (· < u)++ts.filter (u ≤ ·) = ts := by
  induction ts with
  | nil => rfl
  | cons t ts ih =>
    obtain ⟨hlater,hs'⟩ := List.pairwise_cons.mp hs
    by_cases ht : t < u
    · have hge : ¬u ≤ t := by omega
      simp [ht,hge,ih hs']
    · have hnone : ts.filter (· < u) = [] := by
        rw [List.filter_eq_nil_iff]
        intro v hv
        have := hlater v hv
        simp only [decide_eq_true_eq]
        omega
      have hall : ts.filter (u ≤ ·) = ts := by
        rw [List.filter_eq_self]
        intro v hv
        have := hlater v hv
        simp only [decide_eq_true_eq]
        omega
      simp [ht,hnone,hall,Nat.le_of_not_lt ht]

def grantedWithin (t1 t2 : Nat) (outs : List (Nat × Bool)) : Nat :=
  outs.countP fun p => p.2 && decide (t1 ≤ p.1) && decide (p.1 ≤ t2)

theorem grantedWithin_outside {B r c t1 t2 : Nat} {ts : List Nat} (b : Bucket)
    (h : ∀ t∈ts, t < t1 ∨ t2 < t) :
    grantedWithin t1 t2 (Machine.outputs (consume B r c) ts b) = 0 := by
  rw [grantedWithin,List.countP_eq_zero]
  intro p hp
  have := h p.1 (Machine.mem_of_mem_outputs hp)
  simp only [Bool.and_eq_true,decide_eq_true_eq]
  omega

theorem grantedWithin_le {B r c t1 t2 : Nat} {ts : List Nat} (hs : ts.Pairwise (· ≤ ·))
    (b : Bucket) :
    c*grantedWithin t1 t2 (Machine.outputs (consume B r c) ts b) ≤ B+r*(t2-t1) := by
  have hlate : (ts.filter (t1 ≤ ·)).Pairwise (· ≤ ·) := hs.filter _
  have hsplit := filter_append_of_sorted hs t1
  have hsplit' := filter_append_of_sorted hlate (t2+1)
  rw [← hsplit,← hsplit',Machine.outputs_append,Machine.outputs_append]
  generalize Machine.final (consume B r c) (ts.filter (· < t1)) b = b1
  generalize Machine.final (consume B r c) _ b1 = b2
  have hbefore : grantedWithin t1 t2
      (Machine.outputs (consume B r c) (ts.filter (· < t1)) b) = 0 :=
    grantedWithin_outside b (by simp; omega)
  have hafter : grantedWithin t1 t2
      (Machine.outputs (consume B r c) ((ts.filter (t1 ≤ ·)).filter (t2+1 ≤ ·)) b2) = 0 :=
    grantedWithin_outside b2 (by simp; omega)
  have hwithin : c*granted B r c ((ts.filter (t1 ≤ ·)).filter (· < t2+1)) b1 ≤ B+r*(t2-t1) :=
    granted_le_window (hlate.filter (· < t2+1)) (by simp) (by simp; omega)
  have hcount : grantedWithin t1 t2 (Machine.outputs (consume B r c)
      ((ts.filter (t1 ≤ ·)).filter (· < t2+1)) b1) ≤
      granted B r c ((ts.filter (t1 ≤ ·)).filter (· < t2+1)) b1 := by
    apply List.countP_mono_left
    intro p _ hp
    simp only [Bool.and_eq_true] at hp
    exact hp.1.1
  rw [grantedWithin] at hbefore hafter hcount ⊢
  rw [List.countP_append,List.countP_append,hbefore,hafter,Nat.zero_add,Nat.add_zero]
  exact (Nat.mul_le_mul_left c hcount).trans hwithin

theorem granted_append (B r c : Nat) (u v : List Nat) (b : Bucket) :
    granted B r c (u++v) b =
      granted B r c u b+granted B r c v (Machine.final (consume B r c) u b) := by
  rw [granted,Machine.outputs_append,List.countP_append]
  rfl

theorem final_stamp_le {B r c t2 : Nat} {ts : List Nat} {b : Bucket} (hb : b.stamp ≤ t2)
    (hhi : ∀ t∈ts, t ≤ t2) : (Machine.final (consume B r c) ts b).stamp ≤ t2 := by
  induction ts generalizing b with
  | nil => exact hb
  | cons t ts ih =>
    apply ih
    · rw [consume_stamp]
      exact hhi t List.mem_cons_self
    · exact fun u hu => hhi u (List.mem_cons_of_mem t hu)

theorem le_final_stamp {B r c u : Nat} {ts : List Nat} (b : Bucket) (hs : ts.Pairwise (· ≤ ·))
    (hu : u∈ts) : u ≤ (Machine.final (consume B r c) ts b).stamp := by
  induction ts using List.reverseRecOn with
  | nil => simp at hu
  | append_singleton ts t _ =>
    rw [Machine.final_snoc,consume_stamp]
    obtain hu | hu := List.mem_append.mp hu
    · exact (List.pairwise_append.mp hs).2.2 u hu t (List.mem_singleton_self t)
    · exact (List.mem_singleton.mp hu).le

/-- Since the last request that found a full bucket no token got lost: what is there
and what was granted since make up the capacity and the accrual. -/
theorem exact_since_full {B r c : Nat} {b : Bucket} (hfull : b.level = B) {l : List Nat}
    (hne : l≠[]) (hs : l.Pairwise (· ≤ ·)) (hlo : ∀ t∈l, b.stamp ≤ t) :
    ∃ i u, l[i]? = some u ∧
      (Machine.final (consume B r c) (l.take i) b).refill B r u = B ∧
      (Machine.final (consume B r c) l b).level+
          c*granted B r c (l.drop i) (Machine.final (consume B r c) (l.take i) b) =
        B+r*((Machine.final (consume B r c) l b).stamp-u) := by
  induction l using List.reverseRecOn with
  | nil => exact absurd rfl hne
  | append_singleton l t ih =>
    obtain ⟨hs',_,hlast⟩ := List.pairwise_append.mp hs
    have hle : ∀ u∈l, u ≤ t := fun u hu => hlast u hu t (List.mem_singleton_self t)
    have hstamp : (Machine.final (consume B r c) l b).stamp ≤ t :=
      final_stamp_le (hlo t (by simp)) hle
    have hlevel := consume_level B r c t (Machine.final (consume B r c) l b)
    have single (b' : Bucket) : granted B r c [t] b' = (consume B r c t b').1.toNat := by
      rw [granted_cons]
      simp [granted,Machine.outputs]
    rw [Machine.final_snoc,consume_stamp]
    by_cases hB : (Machine.final (consume B r c) l b).refill B r t = B
    · refine ⟨l.length,t,by simp,by simpa using hB,?_⟩
      simp only [List.drop_left',List.take_left',single,Nat.sub_self,Nat.mul_zero,Nat.add_zero]
      rw [hlevel,hB]
    · have hl : l≠[] := by
        intro hnil
        subst hnil
        apply hB
        simp [Machine.final,Bucket.refill,hfull]
      obtain ⟨i,u,hi,hu,heq⟩ := ih hl hs' fun t ht => hlo t (List.mem_append_left _ ht)
      have hilt : i < l.length := (List.getElem?_eq_some_iff.mp hi).1
      have hut : u ≤ (Machine.final (consume B r c) l b).stamp :=
        le_final_stamp b hs' (List.mem_of_getElem? hi)
      have hopen : (Machine.final (consume B r c) l b).refill B r t =
          (Machine.final (consume B r c) l b).level+
            r*(t-(Machine.final (consume B r c) l b).stamp) := by
        rw [Bucket.refill] at hB ⊢
        omega
      refine ⟨i,u,by rw [List.getElem?_append_left hilt,hi],?_,?_⟩
      · rw [List.take_append_of_le_length hilt.le]
        exact hu
      · rw [List.take_append_of_le_length hilt.le,List.drop_append_of_le_length hilt.le,
          granted_append,single,← Machine.final_append,List.take_append_drop,Nat.mul_add]
        generalize Machine.final (consume B r c) l b = b' at *
        have hsplit : t-u = (b'.stamp-u)+(t-b'.stamp) := by omega
        rw [hsplit,Nat.mul_add]
        omega

/-- A rejection means that everything since the last full bucket was granted away,
provided capacity and rate are whole multiples of the price. -/
theorem rejected_exact {B r c t : Nat} {b : Bucket} {l : List Nat} (hfull : b.level = B)
    (hcB : c ≤ B) (hB : c∣B) (hr : c∣r) (hs : (l++[t]).Pairwise (· ≤ ·))
    (hlo : ∀ u∈l++[t], b.stamp ≤ u)
    (hrej : (consume B r c t (Machine.final (consume B r c) l b)).1 = false) :
    ∃ i u, l[i]? = some u ∧
      (Machine.final (consume B r c) (l.take i) b).refill B r u = B ∧
      c*granted B r c (l.drop i) (Machine.final (consume B r c) (l.take i) b) = B+r*(t-u) := by
  have hlow : (Machine.final (consume B r c) l b).refill B r t < c := by
    by_contra h
    rw [consume,if_pos (by omega)] at hrej
    cases hrej
  have hl : l≠[] := by
    intro hnil
    subst hnil
    simp only [Machine.final,Bucket.refill,hfull] at hlow
    omega
  obtain ⟨hs',_,hlast⟩ := List.pairwise_append.mp hs
  have hle : ∀ u∈l, u ≤ t := fun u hu => hlast u hu t (List.mem_singleton_self t)
  obtain ⟨i,u,hi,hu,heq⟩ := exact_since_full (c := c) (r := r) hfull hl hs' fun v hv =>
    hlo v (List.mem_append_left _ hv)
  have hut : u ≤ (Machine.final (consume B r c) l b).stamp :=
    le_final_stamp b hs' (List.mem_of_getElem? hi)
  have hstamp : (Machine.final (consume B r c) l b).stamp ≤ t :=
    final_stamp_le (hlo t (by simp)) hle
  refine ⟨i,u,hi,hu,?_⟩
  generalize granted B r c (l.drop i) (Machine.final (consume B r c) (l.take i) b) = g at *
  generalize Machine.final (consume B r c) l b = b' at *
  have hrest : b'.refill B r t+c*g = B+r*(t-u) := by
    have hopen : b'.refill B r t = b'.level+r*(t-b'.stamp) := by
      rw [Bucket.refill] at hlow ⊢
      omega
    have hsplit : t-u = (b'.stamp-u)+(t-b'.stamp) := by omega
    rw [hsplit,Nat.mul_add]
    omega
  -- what is left is a multiple of the price and less than one price
  have hdvd : c∣b'.refill B r t := by
    have hsum : c∣B+r*(t-u) := Nat.dvd_add hB (Dvd.dvd.mul_right hr _)
    rw [← hrest] at hsum
    exact (Nat.dvd_add_left (Nat.dvd_mul_right c g)).mp hsum
  have hzero : b'.refill B r t = 0 := Nat.eq_zero_of_dvd_of_lt hdvd hlow
  omega

theorem final_replicate {B r c t : Nat} (n : Nat) {level : Nat} (hcap : level+c*n ≤ B) :
    Machine.final (consume B r c) (List.replicate n t) ⟨level+c*n,t⟩ = ⟨level,t⟩ := by
  induction n with
  | zero => rfl
  | succ n ih =>
    have hrefill : (⟨level+c*(n+1),t⟩ : Bucket).refill B r t = level+c*n+c := by
      rw [Bucket.refill,Nat.sub_self,Nat.mul_zero,Nat.add_zero,Nat.min_eq_right hcap,Nat.mul_succ,
        Nat.add_assoc]
    rw [List.replicate_succ,Machine.final,consume,hrefill,if_pos (Nat.le_add_left _ _),
      Nat.add_sub_cancel]
    exact ih (by rw [Nat.mul_succ] at hcap; omega)

theorem granted_replicate {B r c t : Nat} (hc : 0 < c) (n : Nat) (b : Bucket) :
    granted B r c (List.replicate n t) b = min n (b.refill B r t/c) := by
  induction n generalizing b with
  | zero => simp [granted,Machine.outputs]
  | succ n ih =>
    have hcap : b.refill B r t ≤ B := Nat.min_le_left _ _
    have hagain : (consume B r c t b).2.refill B r t = (consume B r c t b).2.level := by
      have hlevel := consume_level B r c t b
      rw [Bucket.refill,consume_stamp,Nat.sub_self,Nat.mul_zero,Nat.add_zero]
      omega
    rw [List.replicate_succ,granted_cons,ih,hagain,consume]
    by_cases h : c ≤ b.refill B r t
    · rw [if_pos h]
      have hdiv : b.refill B r t/c = (b.refill B r t-c)/c+1 := by
        rw [← Nat.add_div_right _ hc,Nat.sub_add_cancel h]
      simp only [Bool.toNat_true]
      omega
    · have hdiv : b.refill B r t/c = 0 := Nat.div_eq_of_lt (by omega)
      simp [if_neg h,hdiv]

end TokenBucket
