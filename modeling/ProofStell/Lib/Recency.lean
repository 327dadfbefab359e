import Mathlib.Data.Finset.Card
import Mathlib.Data.List.Dedup
import Mathlib.Data.List.Induction
import Mathlib.Data.List.Infix

/-! Lists with the most recently used element in front: moving elements to the front,
cutting the list to a size, and reading it as the history of touches it comes from. -/
namespace Recency
variable {α : Type*} [DecidableEq α]

def touch (a : α) (l : List α) : List α := a::l.filter (· ≠ a)

def touchAll (as l : List α) : List α := as.foldl (fun l a => touch a l) l

/-- The first `m` elements; size 0 is unlimited. -/
def bounded (m : Nat) (l : List α) : List α := if m = 0 then l else l.take m

def rest (m : Nat) (u v : List α) : List α := if m = 0 then v else v.take (m-u.length)

@[simp] theorem mem_touch {a b : α} {l : List α} : b∈touch a l ↔ b = a ∨ b∈l := by
  by_cases h : b = a <;> simp [touch,h]

theorem nodup_touch (a : α) {l : List α} (h : l.Nodup) : (touch a l).Nodup := by
  refine List.nodup_cons.mpr ⟨?_,h.filter _⟩
  simp

@[simp] theorem mem_touchAll {as l : List α} {b : α} : b∈touchAll as l ↔ b∈as ∨ b∈l := by
  induction as generalizing l with
  | nil => simp [touchAll]
  | cons a as ih =>
    rw [touchAll,List.foldl_cons,← touchAll,ih,mem_touch,List.mem_cons]
    tauto

theorem nodup_touchAll (as : List α) {l : List α} (h : l.Nodup) : (touchAll as l).Nodup := by
  induction as generalizing l with
  | nil => exact h
  | cons a as ih => exact ih (nodup_touch a h)

theorem touchAll_eq (as l : List α) :
    touchAll as l = as.dedup.reverse++l.filter (· ∉ as) := by
  induction as generalizing l with
  | nil => simp [touchAll]
  | cons a as ih =>
    rw [touchAll,List.foldl_cons,← touchAll,ih,touch]
    have hrest : (l.filter (· ≠ a)).filter (· ∉ as) = l.filter (· ∉ a::as) := by
      rw [List.filter_filter]
      exact List.filter_congr fun b _ => by simp [Bool.and_comm]
    by_cases ha : a∈as
    · rw [List.filter_cons_of_neg (by simpa using ha),hrest,List.dedup_cons_of_mem ha]
    · rw [List.filter_cons_of_pos (by simpa using ha),hrest,List.dedup_cons_of_notMem ha]
      simp

omit [DecidableEq α] in
theorem bounded_initial (m : Nat) (l : List α) : bounded m l <+: l := by
  rw [bounded]
  split
  · exact List.prefix_refl l
  · exact List.take_prefix m l

omit [DecidableEq α] in
theorem bounded_eq_self {m : Nat} {l : List α} (h : 0 < m → l.length ≤ m) : bounded m l = l := by
  rw [bounded]
  split
  · rfl
  · next hm => exact List.take_of_length_le (h (Nat.pos_of_ne_zero hm))

omit [DecidableEq α] in
theorem length_bounded {m : Nat} (hm : 0 < m) (l : List α) : (bounded m l).length ≤ m := by
  rw [bounded,if_neg (Nat.ne_of_gt hm),List.length_take]
  exact Nat.min_le_left _ _

omit [DecidableEq α] in
theorem le_length_bounded {m : Nat} {l : List α} {a : α} (ha : a∈l) (hcut : a∉bounded m l) :
    m ≤ (bounded m l).length := by
  by_contra hlt
  refine hcut ?_
  rwa [bounded_eq_self fun hm => ?_]
  rw [bounded,if_neg (Nat.ne_of_gt hm),List.length_take] at hlt
  omega

omit [DecidableEq α] in
theorem bounded_append (m : Nat) (u v : List α) :
    bounded m (u++v) = bounded m u++rest m u v := by
  rw [bounded,bounded,rest]
  split
  · rfl
  · exact List.take_append

omit [DecidableEq α] in
theorem rest_sublist (m : Nat) (u v : List α) : (rest m u v).Sublist v := by
  rw [rest]
  split
  · exact List.Sublist.refl v
  · exact List.take_sublist _ v

theorem le_length_filter_ne (a : α) {l : List α} (h : l.Nodup) :
    l.length-1 ≤ (l.filter (· ≠ a)).length := by
  have herase : l.erase a = l.filter (· ≠ a) := by
    rw [h.erase_eq_filter]
    exact List.filter_congr fun b _ => Bool.eq_iff_iff.mpr (by simp)
  rw [← herase]
  exact List.le_length_erase

theorem bounded_touch_bounded (m : Nat) (a : α) {l : List α} (h : l.Nodup) :
    bounded m (touch a (bounded m l)) = bounded m (touch a l) := by
  cases m with
  | zero => rfl
  | succ m =>
    simp only [bounded,Nat.succ_ne_zero,if_false,touch,List.take_succ_cons]
    congr 1
    have hsplit := List.take_append_drop (m+1) l
    nth_rewrite 2 [← hsplit]
    rw [List.filter_append]
    by_cases hlen : l.length ≤ m
    · rw [List.drop_of_length_le (by omega),List.filter_nil,List.append_nil]
    -- the filter takes at most `a` itself out of the first `m+1`
    · refine (List.take_append_of_le_length ?_).symm
      have hfirst := le_length_filter_ne a (h.sublist (List.take_sublist (m+1) l))
      rw [List.length_take] at hfirst
      omega

/-- Bounded to `m`, the list keeps its elements exactly when those touched last, as many
as the bound admits, were in it before. -/
theorem bounded_touchAll_same_iff {m : Nat} (as : List α) {l : List α} (h : l.Nodup)
    (hl : bounded m l = l) :
    (∀ b, b∈bounded m (touchAll as l) ↔ b∈l) ↔ ∀ b∈bounded m as.dedup.reverse, b∈l := by
  constructor
  · intro hsame b hb
    refine (hsame b).mp ?_
    rw [touchAll_eq,bounded_append]
    exact List.mem_append_left _ hb
  · intro hback
    have hsub : bounded m (touchAll as l) ⊆ l := by
      intro b hb
      rw [touchAll_eq,bounded_append] at hb
      obtain hb | hb := List.mem_append.mp hb
      · exact hback b hb
      · exact List.mem_of_mem_filter ((rest_sublist _ _ _).subset hb)
    refine fun b => ⟨fun hb => hsub hb,fun hb => ?_⟩
    by_cases hfull : 0 < m ∧ m < (touchAll as l).length
    -- as many elements as the bound admits, all from `l`, are all of `l`
    · have hsubperm := List.subperm_of_subset ((nodup_touchAll as h).sublist
        (bounded_initial m _).sublist) hsub
      have hlen : l.length ≤ (bounded m (touchAll as l)).length := by
        have hm : l.length ≤ m := by
          rw [← hl]
          exact length_bounded hfull.1 l
        simp only [bounded,Nat.ne_of_gt hfull.1,if_false,List.length_take]
        omega
      exact (hsubperm.perm_of_length_le hlen).mem_iff.mpr hb
    · rw [bounded_eq_self fun hm => Nat.le_of_not_lt fun hlt => hfull ⟨hm,hlt⟩]
      exact mem_touchAll.mpr (Or.inr hb)

section history

inductive Mark (α : Type*) where
  | touched (a : α)
  | dropped (a : α)
  deriving DecidableEq, Repr

/-- What a history leaves without any bound: the touched elements, the latest in front. -/
def recent (h : List (Mark α)) : List α :=
  h.foldl (fun l m => match m with
    | .touched a => touch a l
    | .dropped a => l.filter (· ≠ a)) []

def touches (h : List (Mark α)) : List α :=
  h.filterMap fun m => match m with
    | .touched a => some a
    | .dropped _ => none

def After (h : List (Mark α)) (a b : α) : Prop :=
  ∃ u v, h = u++.touched a::v ∧ a∉touches v ∧ b∈touches v

omit [DecidableEq α] in
@[simp] theorem touches_append (u v : List (Mark α)) : touches (u++v) = touches u++touches v :=
  List.filterMap_append

omit [DecidableEq α] in
theorem mem_touches {h : List (Mark α)} {a : α} : a∈touches h ↔ .touched a∈h := by
  rw [touches,List.mem_filterMap]
  constructor
  · intro hm
    obtain ⟨m,hm,ha⟩ := hm
    cases m with
    | touched b =>
      obtain rfl : b = a := by simpa using ha
      exact hm
    | dropped b => simp at ha
  · intro hm
    exact ⟨_,hm,rfl⟩

theorem recent_append_touched (h : List (Mark α)) (a : α) :
    recent (h++[.touched a]) = touch a (recent h) := by
  rw [recent,List.foldl_append]
  rfl

theorem recent_append_dropped (h : List (Mark α)) (a : α) :
    recent (h++[.dropped a]) = (recent h).filter (· ≠ a) := by
  rw [recent,List.foldl_append]
  rfl

omit [DecidableEq α] in
theorem After.append {h : List (Mark α)} {a b : α} (ha : After h a b) {w : List (Mark α)}
    (hw : a∉touches w) : After (h++w) a b := by
  obtain ⟨u,v,rfl,hv,hb⟩ := ha
  refine ⟨u,v++w,by simp,?_,?_⟩
  · rw [touches_append]
    exact List.not_mem_append hv hw
  · rw [touches_append]
    exact List.mem_append_left _ hb

def Present (h : List (Mark α)) (a : α) : Prop :=
  ∃ u v, h = u++.touched a::v ∧ a∉touches v ∧ .dropped a∉v

theorem snoc_eq_split {β : Type*} {l u v : List β} {a b : β} (heq : l++[a] = u++b::v) :
    (l = u ∧ a = b ∧ v = []) ∨ ∃ w, v = w++[a] ∧ l = u++b::w := by
  obtain rfl | ⟨w,c,rfl⟩ := List.eq_nil_or_concat v
  · obtain ⟨hl,ha⟩ := List.append_inj' heq rfl
    exact Or.inl ⟨hl,List.singleton_inj.mp ha,rfl⟩
  · rw [List.concat_eq_append,← List.cons_append,← List.append_assoc] at heq
    obtain ⟨hl,ha⟩ := List.append_inj' heq rfl
    exact Or.inr ⟨w,by rw [List.concat_eq_append,ha],hl⟩

omit [DecidableEq α] in
theorem present_snoc_iff {h : List (Mark α)} {m : Mark α} {a : α} :
    Present (h++[m]) a ↔ m = .touched a ∨ (m≠.dropped a ∧ Present h a) := by
  constructor
  · intro hp
    obtain ⟨u,v,heq,ht,hd⟩ := hp
    obtain ⟨-,hm,-⟩ | ⟨w,rfl,hh⟩ := snoc_eq_split heq
    · exact Or.inl hm
    · simp only [touches_append,List.mem_append,not_or] at ht hd
      refine Or.inr ⟨fun hm => hd.2 (by simp [hm]),u,w,hh,ht.1,hd.1⟩
  · intro hp
    by_cases hlast : m = .touched a
    · rw [hlast]
      exact ⟨h,[],rfl,by simp [touches],by simp⟩
    · obtain ⟨hm,u,v,rfl,ht,hd⟩ := hp.resolve_left hlast
      refine ⟨u,v++[m],by simp,?_,?_⟩
      · rw [touches_append]
        refine List.not_mem_append ht fun ha => hlast ?_
        exact (List.mem_singleton.mp (mem_touches.mp ha)).symm
      · exact List.not_mem_append hd fun ha => hm (List.mem_singleton.mp ha).symm

omit [DecidableEq α] in
theorem present_append {h w : List (Mark α)} {a : α} (hp : Present h a ∨ a∈touches w)
    (hw : .dropped a∉w) : Present (h++w) a := by
  induction w using List.reverseRecOn with
  | nil => simpa [touches] using hp
  | append_singleton w m ih =>
    simp only [List.mem_append,List.mem_singleton,not_or,touches_append] at hp hw
    rw [← List.append_assoc,present_snoc_iff]
    by_cases hm : m = .touched a
    · exact Or.inl hm
    · refine Or.inr ⟨Ne.symm hw.2,ih ?_ hw.1⟩
      refine hp.imp_right fun ht => ht.resolve_right fun hlast => hm ?_
      exact (List.mem_singleton.mp (mem_touches.mp hlast)).symm

/-- An element that is there has a last touch and was not dropped since. -/
theorem mem_recent_iff {h : List (Mark α)} {a : α} : a∈recent h ↔ Present h a := by
  induction h using List.reverseRecOn with
  | nil => simp [recent,Present]
  | append_singleton h m ih =>
    rw [present_snoc_iff]
    cases m with
    | touched b =>
      rw [recent_append_touched,mem_touch,ih]
      simp [eq_comm]
    | dropped b =>
      have hne : Mark.dropped b≠.dropped a ↔ a≠b := by simp [eq_comm]
      rw [recent_append_dropped,List.mem_filter,ih,hne]
      simp [and_comm]

theorem after_of_sublist {h : List (Mark α)} {a b : α} (hs : [b,a].Sublist (recent h)) :
    After h a b := by
  induction h using List.reverseRecOn with
  | nil => simp [recent] at hs
  | append_singleton h m ih =>
    cases m with
    | touched c =>
      rw [recent_append_touched,touch] at hs
      cases hs with
      | cons _ hs =>
        have hac := (List.mem_filter.mp (hs.subset (List.mem_of_getLast? rfl))).2
        refine (ih (hs.trans List.filter_sublist)).append ?_
        simpa [touches] using hac
      | cons_cons _ hs =>
        obtain ⟨ha,hac⟩ := List.mem_filter.mp (List.singleton_sublist.mp hs)
        obtain ⟨u,v,rfl,ht,-⟩ := mem_recent_iff.mp ha
        refine ⟨u,v++[.touched b],by simp,?_,by simp [touches]⟩
        rw [touches_append]
        refine List.not_mem_append ht ?_
        simpa [touches] using hac
    | dropped c =>
      rw [recent_append_dropped] at hs
      exact (ih (hs.trans List.filter_sublist)).append (by simp [touches])

/-- What stands in front was touched later than all that stands behind. -/
theorem after_of_initial {h : List (Mark α)} {q : List α} (hq : q <+: recent h) {a b : α}
    (ha : a∈recent h) (haq : a∉q) (hb : b∈q) : After h a b := by
  obtain ⟨t,ht⟩ := hq
  refine after_of_sublist ?_
  rw [← ht] at ha ⊢
  have hat := (List.mem_append.mp ha).resolve_left haq
  exact (List.singleton_sublist.mpr hb).append (List.singleton_sublist.mpr hat)

def Overtaken (m : Nat) (h : List (Mark α)) (a : α) : Prop :=
  ∃ s : Finset α, m ≤ s.card ∧ ∀ b∈s, After h a b

/-- `q` keeps track of `h`: it is what was touched most recently, and what is missing
has been overtaken. -/
structure Tracks (m : Nat) (h : List (Mark α)) (q : List α) : Prop where
  initial : q <+: recent h
  missing : ∀ a∈recent h, a∉q → Overtaken m h a

theorem tracks_nil (m : Nat) : Tracks m ([] : List (Mark α)) [] := by
  refine ⟨ List.nil_prefix,fun a ha => ?_⟩
  simp [recent] at ha

omit [DecidableEq α] in
theorem Overtaken.append {m : Nat} {h : List (Mark α)} {a : α} (ho : Overtaken m h a)
    {w : List (Mark α)} (hw : a∉touches w) : Overtaken m (h++w) a := by
  obtain ⟨s,hcard,hs⟩ := ho
  exact ⟨s,hcard,fun b hb => (hs b hb).append hw⟩

theorem Tracks.touch {m : Nat} {h : List (Mark α)} {q : List α} (ht : Tracks m h q) (a : α) :
    Tracks m (h++[.touched a]) (touch a q) := by
  rw [Recency.touch]
  refine ⟨?_,fun b hb hbq => ?_⟩
  · rw [recent_append_touched,Recency.touch,List.prefix_cons_inj]
    exact ht.initial.filter _
  · rw [recent_append_touched,mem_touch] at hb
    simp only [List.mem_cons,List.mem_filter,not_or] at hbq
    obtain ⟨hba,hbq⟩ := hbq
    have hold := ht.missing b (hb.resolve_left hba) fun hq => hbq ⟨hq,by simpa using hba⟩
    exact hold.append (by simpa [touches] using hba)

theorem Tracks.touchAll {m : Nat} {h : List (Mark α)} {q : List α} (ht : Tracks m h q)
    (as : List α) : Tracks m (h++as.map .touched) (touchAll as q) := by
  induction as generalizing h q with
  | nil => simpa [Recency.touchAll] using ht
  | cons a as ih => simpa [Recency.touchAll] using ih (ht.touch a)

theorem Tracks.drop {m : Nat} {h : List (Mark α)} {q : List α} (ht : Tracks m h q) (a : α) :
    Tracks m (h++[.dropped a]) (q.filter (· ≠ a)) := by
  refine ⟨?_,fun b hb hbq => ?_⟩
  · rw [recent_append_dropped]
    exact ht.initial.filter _
  · rw [recent_append_dropped,List.mem_filter] at hb
    have hold := ht.missing b hb.1 fun hq => hbq (List.mem_filter.mpr ⟨hq,hb.2⟩)
    exact hold.append (by simp [touches])

theorem Tracks.cut {m : Nat} {h : List (Mark α)} {q : List α} (ht : Tracks m h q)
    (hq : q.Nodup) : Tracks m h (bounded m q) := by
  have hpre := bounded_initial m q
  refine ⟨hpre.trans ht.initial,fun a ha hcut => ?_⟩
  by_cases haq : a∈q
  · have hlater (b : α) (hb : b∈(bounded m q).toFinset) : After h a b :=
      after_of_initial (hpre.trans ht.initial) ha hcut (List.mem_toFinset.mp hb)
    refine ⟨_,?_,hlater⟩
    rw [List.toFinset_card_of_nodup (hq.sublist hpre.sublist)]
    exact le_length_bounded haq hcut
  · exact ht.missing a ha haq

omit [DecidableEq α] in
theorem last_touch_unique {u v u' v' : List (Mark α)} {a : α}
    (heq : u++.touched a::v = u'++.touched a::v') (hv : a∉touches v) (hv' : a∉touches v') :
    v = v' := by
  have later {w w' x : List (Mark α)} (hw : a∉touches w)
      (hx : .touched a::w = x++.touched a::w') : w = w' := by
    cases x with
    | nil => exact List.tail_eq_of_cons_eq hx
    | cons m x =>
      refine absurd (mem_touches.mpr ?_) hw
      rw [List.tail_eq_of_cons_eq hx]
      simp
  obtain ⟨x,-,hx⟩ | ⟨x,-,hx⟩ := List.append_eq_append_iff.mp heq
  · exact later hv hx
  · exact (later hv' hx).symm

/-- What was touched and not dropped since is there until `m` others have been touched. -/
theorem Tracks.kept {m : Nat} {q : List α} {u v : List (Mark α)} {a : α}
    (ht : Tracks m (u++.touched a::v) q) (htouch : a∉touches v) (hdrop : .dropped a∉v)
    (hfew : (touches v).toFinset.card < m) : a∈q := by
  by_contra haq
  obtain ⟨s,hcard,hs⟩ := ht.missing a (mem_recent_iff.mpr ⟨u,v,rfl,htouch,hdrop⟩) haq
  have hsub : s⊆(touches v).toFinset := by
    intro b hb
    obtain ⟨u',v',heq,ha,hb⟩ := hs b hb
    rw [last_touch_unique heq htouch ha]
    exact List.mem_toFinset.mpr hb
  have hle := Finset.card_le_card hsub
  omega

end history

end Recency
