import ProofStell.Lib.Locks

/-! Programs that touch the data under one root lock are atomic: whatever the interleaving, the
data is that of running them one after the other, in the order in which they began to work. -/
namespace Locks
variable {κ ℓ σ : Type*}

def works : List (Act ℓ σ) → List (σ → σ)
  | [] => []
  | .work f::rest => f::works rest
  | .lock _ _::rest | .unlock _::rest => works rest

@[simp,grind =] theorem works_nil : works ([] : List (Act ℓ σ)) = [] := rfl

@[simp,grind =] theorem works_work (f : σ → σ) (rest : List (Act ℓ σ)) :
    works (.work f::rest) = f::works rest := rfl

@[simp,grind =] theorem works_lock (l : ℓ) (m : Mode) (rest : List (Act ℓ σ)) :
    works (.lock l m::rest) = works rest := rfl

@[simp,grind =] theorem works_unlock (l : ℓ) (rest : List (Act ℓ σ)) :
    works (.unlock l::rest) = works rest := rfl

def perform (fs : List (σ → σ)) (data : σ) : σ := fs.foldl (fun d f => f d) data

theorem perform_snoc (fs : List (σ → σ)) (f : σ → σ) (data : σ) :
    perform (fs++[f]) data = f (perform fs data) := by
  rw [perform,List.foldl_append]
  rfl

theorem works_append (p q : List (Act ℓ σ)) : works (p++q) = works p++works q := by
  induction p with
  | nil => rfl
  | cons a p ih => cases a <;> simp [works,ih]

section
variable [DecidableEq ℓ] (root : ℓ)

/-- The data is touched under the root lock only, and once a program has begun to work it keeps
the root lock for itself until it is done. -/
structure Guarded (program : List (Act ℓ σ)) : Prop where
  work : ∀ held f rest, (held,.work f::rest)∈configs [] program → ∃ m, (root,m)∈held
  between : ∀ held todo, (held,todo)∈configs [] program → works todo≠[] →
    (works todo).length < (works program).length → (root,.exclusive)∈held

end

section
variable (program : κ → List (Act ℓ σ)) (s : State κ ℓ σ)

def Begun (k : κ) : Prop := (works (s.todo k)).length < (works (program k)).length

instance (k : κ) : Decidable (Begun program s k) := Nat.decLt _ _

def did (k : κ) : List (σ → σ) :=
  (works (program k)).take ((works (program k)).length-(works (s.todo k)).length)

def begins (k : κ) (s : State κ ℓ σ) : List κ :=
  match s.todo k with
  | .work _::_ => if Begun program s k then [] else [k]
  | _ => []

def replay (order : List κ) (data : σ) : σ :=
  order.foldl (fun d k => perform (did program s k) d) data

end

section
variable {program : κ → List (Act ℓ σ)} {s : State κ ℓ σ}

theorem did_eq {k : κ} {fs : List (σ → σ)} (h : works (program k) = fs++works (s.todo k)) :
    did program s k = fs := by
  rw [did,h,List.length_append,Nat.add_sub_cancel]
  exact List.take_left

theorem did_congr {s' : State κ ℓ σ} {k : κ} (h : works (s'.todo k) = works (s.todo k)) :
    did program s' k = did program s k := by rw [did,did,h]

theorem replay_congr {s' : State κ ℓ σ} {order : List κ}
    (h : ∀ k∈order, did program s' k = did program s k) (data : σ) :
    replay program s' order data = replay program s order data := by
  induction order generalizing data with
  | nil => rfl
  | cons k order ih =>
    rw [replay,replay,List.foldl_cons,List.foldl_cons,h k List.mem_cons_self]
    exact ih (fun j hj => h j (List.mem_cons_of_mem _ hj)) _

theorem replay_snoc (order : List κ) (k : κ) (data : σ) :
    replay program s (order++[k]) data = perform (did program s k) (replay program s order data) := by
  rw [replay,List.foldl_append]
  rfl

end

section
variable [DecidableEq κ] [DecidableEq ℓ] {program : κ → List (Act ℓ σ)} {s : State κ ℓ σ}
  {root : ℓ} {data : σ} {order : List κ}

omit [DecidableEq κ] in
theorem Valid.works_split (h : Valid program s) (k : κ) :
    ∃ fs, works (program k) = fs++works (s.todo k) := by
  obtain ⟨held,hmem,_⟩ := h.task k
  obtain ⟨p,hp⟩ := configs_suffix hmem
  refine ⟨works p,?_⟩
  rw [← hp,works_append]

/-- The data is what the tasks that have begun have done, one after the other; only the last of
them may be at work. -/
structure Serial (program : κ → List (Act ℓ σ)) (data : σ) (order : List κ) (s : State κ ℓ σ) :
    Prop where
  valid : Valid program s
  replayed : s.data = replay program s order data
  begun : ∀ k, k∈order ↔ Begun program s k
  last : ∀ k∈order, works (s.todo k)≠[] → order.getLast? = some k
  nodup : order.Nodup

omit [DecidableEq κ] in
theorem Serial.idle (h : Serial program data order s) {s' : State κ ℓ σ} (hvalid : Valid program s')
    (hdata : s'.data = s.data) (hworks : ∀ k, works (s'.todo k) = works (s.todo k)) :
    Serial program data order s' := by
  refine ⟨hvalid,?_,fun k => ?_,fun k hk => ?_,h.nodup⟩
  · rw [hdata,h.replayed]
    exact (replay_congr (fun k _ => did_congr (hworks k)) data).symm
  · rw [h.begun,Begun,Begun,hworks]
  · rw [hworks]
    exact h.last k hk

omit [DecidableEq κ] in
/-- Nobody is in the middle of its work when a task works. -/
theorem Serial.others_done (h : Serial program data order s) (hguard : ∀ k, Guarded root (program k))
    {k : κ} {f : σ → σ} {rest : List (Act ℓ σ)} (hk : s.todo k = .work f::rest) {j : κ}
    (hj : j∈order) (hne : j≠k) : works (s.todo j) = [] := by
  by_contra hpending
  obtain ⟨held,hmem,hiff⟩ := h.valid.task k
  rw [hk] at hmem
  obtain ⟨m,hm⟩ := (hguard k).work held f rest hmem
  obtain ⟨held',hmem',hiff'⟩ := h.valid.task j
  have hroot := (hguard j).between held' _ hmem' hpending ((h.begun j).mp hj)
  have halone := h.valid.alone root j ((hiff' _ _).mpr hroot) _ ((hiff root m).mpr hm)
  exact hne (congrArg Prod.fst halone).symm

theorem Serial.work (h : Serial program data order s) (hguard : ∀ k, Guarded root (program k))
    {k : κ} {f : σ → σ} {rest : List (Act ℓ σ)} (hk : s.todo k = .work f::rest) :
    Serial program data (order++begins program k s)
      ({ s with data := f s.data }.proceed k rest) := by
  have hvalid := h.valid.work hk
  obtain ⟨fs,hfs⟩ := h.valid.works_split k
  have hdid : did program s k = fs := did_eq hfs
  have hdid' : did program ({ s with data := f s.data }.proceed k rest) k = fs++[f] := by
    apply did_eq
    rw [State.proceed_todo,if_pos rfl,hfs,hk,works,List.append_assoc,List.singleton_append]
  have hother {j : κ} (hj : j≠k) :
      works ((({ s with data := f s.data } : State κ ℓ σ).proceed k rest).todo j) =
        works (s.todo j) := by
    rw [State.proceed_todo,if_neg hj]
  have hbegun (j : κ) : j = k ∨ Begun program s j ↔
      Begun program ({ s with data := f s.data }.proceed k rest) j := by
    by_cases hj : j = k
    · subst hj
      have hlen := congrArg List.length hfs
      rw [hk,works,List.length_append,List.length_cons] at hlen
      simp only [true_or,true_iff,Begun,State.proceed_todo,if_true]
      omega
    · simp only [hj,false_or,Begun,hother hj]
  have hdone (j : κ) (hj : j∈order) (hne : j≠k) :=
    h.others_done hguard hk hj hne
  by_cases hb : Begun program s k
  · have hnone : begins program k s = [] := by simp only [begins,hk,if_pos hb]
    have hlast : order.getLast? = some k := by
      refine h.last k ((h.begun k).mpr hb) ?_
      rw [hk,works]
      exact List.cons_ne_nil _ _
    obtain ⟨before,rfl⟩ := List.getLast?_eq_some_iff.mp hlast
    have hnodup := List.nodup_append.mp h.nodup
    have hbefore (j : κ) (hj : j∈before) : j≠k := hnodup.2.2 j hj k List.mem_cons_self
    rw [hnone,List.append_nil]
    refine ⟨hvalid,?_,fun j => ?_,fun j hj hpending => ?_,h.nodup⟩
    · rw [replay_snoc,hdid',perform_snoc,replay_congr fun j hj => did_congr (hother (hbefore j hj)),
        ← hdid,← replay_snoc,← h.replayed]
      rfl
    · rw [h.begun,← hbegun]
      exact ⟨Or.inr,fun hj => hj.elim (fun heq => heq ▸ hb) id⟩
    · by_cases hne : j = k
      · rw [hne]
        exact hlast
      · exact absurd ((hother hne).trans (hdone j hj hne)) hpending
  · have hone : begins program k s = [k] := by simp only [begins,hk,if_neg hb]
    have hnew : k∉order := fun hmem => hb ((h.begun k).mp hmem)
    have hnil : fs = [] := by
      have hlen := congrArg List.length hfs
      rw [Begun] at hb
      rw [List.length_append] at hlen
      exact List.eq_nil_of_length_eq_zero (by omega)
    rw [hone]
    refine ⟨hvalid,?_,fun j => ?_,fun j hj hpending => ?_,?_⟩
    · have hsame : ∀ j∈order, did program ({ s with data := f s.data }.proceed k rest) j =
          did program s j := fun j hj => did_congr (hother fun heq => hnew (heq ▸ hj))
      rw [replay_snoc,hdid',hnil,List.nil_append,replay_congr hsame,← h.replayed]
      rfl
    · rw [List.mem_append,List.mem_singleton,h.begun,or_comm,hbegun]
    · by_cases hne : j = k
      · rw [hne,List.getLast?_concat]
      · have hold : j∈order := by simpa [hne] using hj
        exact absurd ((hother hne).trans (hdone j hold hne)) hpending
    · exact h.nodup.append (List.nodup_singleton k) (by simpa using hnew)

theorem Serial.step (h : Serial program data order s) (hguard : ∀ k, Guarded root (program k))
    (k : κ) : Serial program data (order++begins program k s) (step k s).2 := by
  have hvalid := h.valid.step k
  have hmoves := step_moves k s
  generalize (Locks.step k s).2 = s' at hmoves hvalid ⊢
  have hsame {a : Act ℓ σ} {rest : List (Act ℓ σ)} (hk : s.todo k = a::rest)
      (ha : works [a] = []) (s' : State κ ℓ σ) (htodo : s'.todo = (s.proceed k rest).todo) (j : κ) :
      works (s'.todo j) = works (s.todo j) := by
    rw [htodo,State.proceed_todo]
    split
    · next hj =>
      rw [hj,hk,← List.singleton_append,works_append,ha,List.nil_append]
    · rfl
  have hidle (hnone : begins program k s = []) (hdata : s'.data = s.data)
      (hworks : ∀ j, works (s'.todo j) = works (s.todo j)) :
      Serial program data (order++begins program k s) s' := by
    rw [hnone,List.append_nil]
    exact h.idle hvalid hdata hworks
  cases hmoves with
  | stay hblocked =>
    refine hidle ?_ rfl fun _ => rfl
    rw [State.ready] at hblocked
    rw [begins]
    split
    · next hk =>
      rw [hk] at hblocked
      cases hblocked
    · rfl
  | join hk hnew => exact hidle (by simp only [begins,hk]) rfl fun _ => rfl
  | enter hk hqueue hadmits => exact hidle (by simp only [begins,hk]) rfl (hsame hk rfl _ rfl)
  | work hk => exact h.work hguard hk
  | leave hk => exact hidle (by simp only [begins,hk]) rfl (hsame hk rfl _ rfl)

omit [DecidableEq κ] in
theorem start_serial (data : σ) (program : κ → List (Act ℓ σ)) :
    Serial program data [] (start data program) :=
  ⟨start_valid data program,rfl,fun k => by simp [Begun,start],fun _ hk => absurd hk List.not_mem_nil,
    List.nodup_nil⟩

abbrev serialOrder (data : σ) (program : κ → List (Act ℓ σ)) (l : List κ) : List κ :=
  Machine.trace step (begins program) l (start data program)

theorem run_serial (hguard : ∀ k, Guarded root (program k)) (data : σ) (l : List κ) :
    Serial program data (serialOrder data program l) (Machine.final step l (start data program)) :=
  Machine.trace_invariant (P := Serial program data) (fun k _ _ h => h.step hguard k) l []
    (start data program) (start_serial data program)

omit [DecidableEq κ] in
theorem Serial.all_done (h : Serial program data order s) (hguard : ∀ k, Guarded root (program k))
    (hfree : ∀ k, (k,.exclusive)∉(s.locks root).holders) {k : κ} (hk : k∈order) :
    works (s.todo k) = [] := by
  by_contra hpending
  obtain ⟨held,hmem,hiff⟩ := h.valid.task k
  exact hfree k ((hiff _ _).mpr ((hguard k).between held _ hmem hpending ((h.begun k).mp hk)))

omit [DecidableEq κ] in
/-- While nobody has the root lock for itself, the data is that of an atomic run. -/
theorem Serial.atomic (h : Serial program data order s) (hguard : ∀ k, Guarded root (program k))
    (hfree : ∀ k, (k,.exclusive)∉(s.locks root).holders) :
    s.data = order.foldl (fun d k => perform (works (program k)) d) data := by
  have hdid {k : κ} (hk : k∈order) : did program s k = works (program k) := by
    apply did_eq
    rw [h.all_done hguard hfree hk,List.append_nil]
  rw [h.replayed,replay]
  exact List.foldl_ext _ _ data fun d k hk => by rw [hdid hk]

end
end Locks
