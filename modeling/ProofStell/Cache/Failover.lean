import ProofStell.Cache.Redis
import ProofStell.Cache.TtlMap
import ProofStell.Lib.Machine
import ProofStell.Lib.Register

/-! Reads across Redis outages. A write goes to Redis or to the fallback, never to
both, so each of the two stores remembers its own last write of a key. -/
namespace ProofStell.Cache
open Transact

/-- The guards pass and the command itself goes through. -/
def RedisCache.serves (env : Surroundings) (c : RedisCache) : Bool :=
  (c.passGuards env).1.isOk && env.command

theorem guards_frame (env : Surroundings) :
    Exec.Frames (fun c : RedisCache => (c.connection,c.fallback)) (RedisCache.passGuards env) := by
  have record (f : CacheCircuitBreaker → CacheCircuitBreaker) :
      Exec.Frames (fun c : RedisCache => (c.connection,c.fallback)) (RedisCache.report f) :=
    Exec.frames_write _ fun _ => rfl
  refine Exec.Frames.bind (fun _ => rfl) fun allowed => ?_
  refine (Exec.frames_require _ _ _).bind fun _ => ?_
  refine (Exec.frames_require _ _ _).bind fun _ => ?_
  refine Exec.Frames.bind ?_ fun healthy => ?_
  · intro c
    rw [RedisCache.checkConnection]
    split
    · split <;> rfl
    · rfl
  · split
    · exact Exec.frames_pure _ _
    · exact (record _).bind fun _ => Exec.frames_fail _ _

theorem guarded_spec {α : Type} (env : Surroundings) (f : RedisServer → α × RedisServer)
    (c : RedisCache) :
    (RedisCache.guarded env f c).2.fallback = c.fallback ∧
      if c.serves env = true then
        (RedisCache.guarded env f c).1 = .ok (f c.connection).1 ∧
          (RedisCache.guarded env f c).2.connection = (f c.connection).2
      else (∃ e, (RedisCache.guarded env f c).1 = .error e) ∧
        (RedisCache.guarded env f c).2.connection = c.connection := by
  have hframe := guards_frame env c
  rw [RedisCache.serves,RedisCache.guarded]
  cases hg : c.passGuards env with
  | mk o d =>
    rw [hg] at hframe
    simp only [Prod.mk.injEq] at hframe
    obtain ⟨hconn,hfall⟩ := hframe
    cases o with
    | error e =>
      rw [Exec.bind_of_error hg]
      simp [Except.isOk,Except.toBool,hconn,hfall]
    | ok u =>
      rw [Exec.bind_of_ok hg]
      cases hc : env.command with
      | false => simp [RedisCache.recordFailure,RedisCache.report,hconn,hfall]
      | true =>
        have hrun : RedisCache.onServer f d =
            (.ok (f c.connection).1,{ d with connection := (f c.connection).2 }) := by
          rw [RedisCache.onServer,hconn]
        rw [if_pos rfl,Exec.bind_of_ok hrun]
        simp [Except.isOk,Except.toBool,RedisCache.recordSuccess,RedisCache.report,hfall]

/-- The guarded command on the server if it is served, else the fallback. -/
theorem orFallback_spec {α : Type} (env : Surroundings) (f : RedisServer → α × RedisServer)
    (x : Exec InMemoryCache CacheError α) (c : RedisCache) :
    if c.serves env = true then
      (RedisCache.orFallback (RedisCache.guarded env f) x c).1 = .ok (f c.connection).1 ∧
        (RedisCache.orFallback (RedisCache.guarded env f) x c).2.connection =
          (f c.connection).2 ∧
        (RedisCache.orFallback (RedisCache.guarded env f) x c).2.fallback = c.fallback
    else (RedisCache.orFallback (RedisCache.guarded env f) x c).1 = (x c.fallback).1 ∧
      (RedisCache.orFallback (RedisCache.guarded env f) x c).2.connection = c.connection ∧
      (RedisCache.orFallback (RedisCache.guarded env f) x c).2.fallback = (x c.fallback).2 := by
  obtain ⟨hfall,hspec⟩ := guarded_spec env f c
  rw [RedisCache.orFallback]
  cases hg : RedisCache.guarded env f c with
  | mk o d =>
    rw [hg] at hfall hspec
    by_cases hs : c.serves env = true
    · rw [if_pos hs] at hspec ⊢
      simp only at hspec hfall
      obtain ⟨rfl,hconn⟩ := hspec
      exact ⟨rfl,hconn,hfall⟩
    · rw [if_neg hs] at hspec ⊢
      simp only at hspec hfall
      obtain ⟨⟨e,rfl⟩,hconn⟩ := hspec
      simp only [RedisCache.onFallback,hfall]
      exact ⟨trivial,hconn,trivial⟩

inductive Op where
  | get (key : CacheKey)
  | set (key : CacheKey) (value : String) (ttl : UInt64)
  | delete (key : CacheKey)
  deriving DecidableEq, Repr

def Op.key : Op → CacheKey
  | .get key | .set key _ _ | .delete key => key

def Op.writes (key : CacheKey) : Op → Bool
  | .get _ => false
  | .set k _ _ | .delete k => k = key

structure Request where
  env : Surroundings
  op : Op
  deriving DecidableEq, Repr

def request (r : Request) : Exec CacheBackend CacheError (Option String) :=
  match r.op with
  | .get key => CacheBackend.getRaw r.env key
  | .set key value ttl => do CacheBackend.setRaw r.env key value ttl; return none
  | .delete key => do CacheBackend.delete r.env key; return none

inductive Place where
  | redis | fallback
  deriving DecidableEq, Repr

def place (env : Surroundings) : CacheBackend → Place
  | .redis c => if c.serves env = true then .redis else .fallback
  | .inMemory _ => .fallback

def step (r : Request) (b : CacheBackend) :
    (Except CacheError (Option String) × Place) × CacheBackend :=
  (((request r b).1,place r.env b),(request r b).2)

abbrev Logged := Request × (Except CacheError (Option String) × Place)

abbrev Log := List Logged

/-- What a register would hold: the latest acknowledged write of each key. -/
def latest (log : Log) : CacheKey → Option String :=
  log.foldl (fun m o => match o.1.op,o.2.1 with
    | .set key value _,.ok _ => Function.update m key (some value)
    | .delete key,.ok _ => Function.update m key none
    | _,_ => m) fun _ => none

def deadline (p : Place) (env : Surroundings) (ttl : UInt64) : Nat :=
  match p with
  | .redis => env.serverSecs+ttl.toNat
  | .fallback => (Saturating.add64 env.nowSecs ttl).toNat

def reading (p : Place) (env : Surroundings) : Nat :=
  match p with
  | .redis => env.serverSecs
  | .fallback => env.nowSecs.toNat

def alive (now : Nat) (o : Option TimedValue) : Option TimedValue :=
  o.filter fun x => now < x.expiresAt

/-- What an operation does to the store that takes it. -/
def keep (p : Place) (m : CacheKey → Option TimedValue) (r : Request) :
    CacheKey → Option TimedValue :=
  match r.op with
  | .get key => Function.update m key (alive (reading p r.env) (m key))
  | .set key value ttl => Function.update m key (some ⟨value,deadline p r.env ttl⟩)
  | .delete key => Function.update m key none

def taken (p : Place) (log : Log) : CacheKey → Option TimedValue :=
  log.foldl (fun m o => if o.2.2 = p then keep p m o.1 else m) fun _ => none

def InMemoryCache.contents (c : InMemoryCache) (key : CacheKey) : Option TimedValue :=
  (c.store.lookup key).map fun e => ⟨e.value,e.expiresAt.toNat⟩

theorem alive_contents (now : UInt64) (key : CacheKey) (c : InMemoryCache) :
    alive now.toNat (c.contents key) =
      (InMemoryCache.afterAccess key (c.store.lookup key) (.look now key)).map
        fun e => ⟨e.value,e.expiresAt.toNat⟩ := by
  rw [InMemoryCache.contents,InMemoryCache.afterAccess,if_pos rfl]
  cases c.store.lookup key with
  | none => rfl
  | some e =>
    by_cases he : now < e.expiresAt
    · have hn : now.toNat < e.expiresAt.toNat := UInt64.lt_iff_toNat_lt.mp he
      simp [alive,Option.filter_some,he,hn]
    · have hn : ¬now.toNat < e.expiresAt.toNat := fun h => he (UInt64.lt_iff_toNat_lt.mpr h)
      simp [alive,Option.filter_some,he,hn]

theorem lookup_spec (env : Surroundings) (key : CacheKey) (c : InMemoryCache) :
    (CacheBackend.lookup env.nowSecs key c).1 =
        .ok ((alive (reading .fallback env) (c.contents key)).map TimedValue.value) ∧
      (CacheBackend.lookup env.nowSecs key c).2.contents =
        keep .fallback c.contents ⟨env,.get key⟩ ∧
      (CacheBackend.lookup env.nowSecs key c).2.maxSize = c.maxSize := by
  have halive : alive (reading .fallback env) (c.contents key) = _ :=
    alive_contents env.nowSecs key c
  rw [CacheBackend.lookup,Exec.bind_apply,InMemoryCache.getRawWithExpiry_eq]
  refine ⟨?_,Function.eq_update_iff.mpr ⟨?_,fun k hk => ?_⟩,
    InMemoryCache.look_maxSize env.nowSecs key c⟩
  · rw [halive,Option.map_map]
    exact congrArg Except.ok (InMemoryCache.look_value env.nowSecs key c)
  · rw [halive,← InMemoryCache.lookup_look]
    rfl
  · have hother := InMemoryCache.lookup_look env.nowSecs key k c
    rw [InMemoryCache.afterAccess,if_neg (Ne.symm hk)] at hother
    exact congrArg (Option.map _) hother

theorem inMemory_set_spec (env : Surroundings) (key : CacheKey) (value : String) (ttl : UInt64)
    {c : InMemoryCache} (hc : c.maxSize = 0) :
    (InMemoryCache.setRaw env.nowSecs key value ttl c).1 = .ok () ∧
      (InMemoryCache.setRaw env.nowSecs key value ttl c).2.contents =
        keep .fallback c.contents ⟨env,.set key value ttl⟩ ∧
      (InMemoryCache.setRaw env.nowSecs key value ttl c).2.maxSize = 0 := by
  rw [InMemoryCache.setRaw]
  simp only [Exec.write_apply,hc,gt_iff_lt,Nat.lt_irrefl,if_false,true_and,and_true]
  refine Function.eq_update_iff.mpr ⟨?_,fun k hk => ?_⟩
  · simp [InMemoryCache.contents,deadline]
  · simp [InMemoryCache.contents,Finmap.lookup_insert_of_ne _ hk]

theorem inMemory_delete_spec (env : Surroundings) (key : CacheKey) (c : InMemoryCache) :
    (InMemoryCache.delete key c).1 = .ok () ∧
      (InMemoryCache.delete key c).2.contents = keep .fallback c.contents ⟨env,.delete key⟩ ∧
      (InMemoryCache.delete key c).2.maxSize = c.maxSize := by
  refine ⟨rfl,Function.eq_update_iff.mpr ⟨?_,fun k hk => ?_⟩,rfl⟩
  · simp [InMemoryCache.delete,InMemoryCache.contents]
  · simp [InMemoryCache.delete,InMemoryCache.contents,Finmap.lookup_erase_ne hk]

def RedisServer.contents (s : RedisServer) (key : CacheKey) : Option TimedValue :=
  s key.asString

theorem redis_update (s : RedisServer) (key : CacheKey) (o : Option TimedValue) :
    RedisServer.contents (Function.update s key.asString o) =
      Function.update (RedisServer.contents s) key o := by
  refine Function.eq_update_iff.mpr ⟨?_,fun k hk => ?_⟩
  · simp [RedisServer.contents]
  · simp [RedisServer.contents,asString_injective.ne hk]

theorem redis_get_spec (env : Surroundings) (key : CacheKey) (s : RedisServer) :
    (RedisServer.get env.serverSecs key.asString s).1 =
        (alive (reading .redis env) (RedisServer.contents s key)).map TimedValue.value ∧
      RedisServer.contents (RedisServer.get env.serverSecs key.asString s).2 =
        keep .redis (RedisServer.contents s) ⟨env,.get key⟩ := by
  have hkey : RedisServer.contents s key = s key.asString := rfl
  rw [RedisServer.get]
  cases hl : s key.asString with
  | none =>
    refine ⟨by simp [hkey,hl,alive],Function.eq_update_iff.mpr ⟨?_,fun _ _ => rfl⟩⟩
    simp [hkey,hl,alive]
  | some e =>
    by_cases he : e.expiresAt > env.serverSecs
    · have ha : alive (reading .redis env) (some e) = some e := by
        simp [alive,reading,Option.filter_some,he]
      simp only [he,if_true]
      refine ⟨by simp [hkey,hl,ha],Function.eq_update_iff.mpr ⟨?_,fun _ _ => rfl⟩⟩
      rw [hkey,hl,ha]
    · have ha : alive (reading .redis env) (some e) = none := by
        simp [alive,reading,Option.filter_some,he]
      simp only [he,if_false]
      refine ⟨by simp [hkey,hl,ha],?_⟩
      rw [redis_update]
      simp only [keep,hkey,hl,ha]

def contents (p : Place) (c : RedisCache) : CacheKey → Option TimedValue :=
  match p with
  | .redis => RedisServer.contents c.connection
  | .fallback => c.fallback.contents

theorem orFallback_contents {α : Type} {r : Request} {f : RedisServer → α × RedisServer}
    {x : Exec InMemoryCache CacheError α} {c : RedisCache} (a : Place → α)
    (hr : (f c.connection).1 = a .redis ∧
      RedisServer.contents (f c.connection).2 = keep .redis (RedisServer.contents c.connection) r)
    (hx : (x c.fallback).1 = .ok (a .fallback) ∧
      (x c.fallback).2.contents = keep .fallback c.fallback.contents r ∧
      (x c.fallback).2.maxSize = c.fallback.maxSize) :
    (RedisCache.orFallback (RedisCache.guarded r.env f) x c).1 = .ok (a (place r.env (.redis c))) ∧
      (∀ p, contents p (RedisCache.orFallback (RedisCache.guarded r.env f) x c).2 =
        if place r.env (.redis c) = p then keep p (contents p c) r else contents p c) ∧
      (RedisCache.orFallback (RedisCache.guarded r.env f) x c).2.fallback.maxSize =
        c.fallback.maxSize := by
  have hspec := orFallback_spec r.env f x c
  by_cases hs : c.serves r.env = true
  · rw [if_pos hs] at hspec
    obtain ⟨h1,h2,h3⟩ := hspec
    have hp : place r.env (.redis c) = .redis := by simp [place,hs]
    rw [hp]
    refine ⟨by rw [h1,hr.1],?_,by rw [h3]⟩
    intro p
    cases p with
    | redis => simp [contents,h2,hr.2]
    | fallback => simp [contents,h3]
  · rw [if_neg hs] at hspec
    obtain ⟨h1,h2,h3⟩ := hspec
    have hp : place r.env (.redis c) = .fallback := by simp [place,hs]
    rw [hp]
    refine ⟨by rw [h1,hx.1],?_,by rw [h3,hx.2.2]⟩
    intro p
    cases p with
    | redis => simp [contents,h2]
    | fallback => simp [contents,h3,hx.2.1]

def answer (p : Place) (c : RedisCache) (r : Request) : Option String :=
  match r.op with
  | .get key => (alive (reading p r.env) (contents p c key)).map TimedValue.value
  | _ => none

theorem step_spec (r : Request) {c : RedisCache} (hc : c.fallback.maxSize = 0) :
    (step r (.redis c)).1 = (.ok (answer (place r.env (.redis c)) c r),place r.env (.redis c)) ∧
      ∃ c', (step r (.redis c)).2 = .redis c' ∧ c'.fallback.maxSize = 0 ∧
        ∀ p, contents p c' =
          if place r.env (.redis c) = p then keep p (contents p c) r else contents p c := by
  have unit {x : Exec RedisCache CacheError Unit} {y : Exec InMemoryCache CacheError Unit}
      (h : (x c).1 = .ok ()) :
      (do CacheBackend.either x y; return none : Exec CacheBackend CacheError (Option String))
        (.redis c) = (.ok none,.redis (x c).2) :=
    Exec.bind_of_ok (show CacheBackend.either x y (.redis c) = (.ok (),.redis (x c).2) by
      rw [CacheBackend.either,h]) _
  obtain ⟨env,op⟩ := r
  cases op with
  | get key =>
    obtain ⟨h1,h2,h3⟩ := orFallback_contents (r := ⟨env,.get key⟩)
      (fun p => (alive (reading p env) (contents p c key)).map TimedValue.value)
      (redis_get_spec env key c.connection) (lookup_spec env key c.fallback)
    exact ⟨Prod.ext h1 rfl,_,rfl,h3.trans hc,h2⟩
  | set key value ttl =>
    obtain ⟨h1,h2,h3⟩ := orFallback_contents (r := ⟨env,.set key value ttl⟩) (fun _ => ())
      (f := RedisServer.setEx env.serverSecs key.asString value ttl)
      ⟨rfl,redis_update _ _ _⟩ (by rw [hc]; exact inMemory_set_spec env key value ttl hc)
    have hreq : request ⟨env,.set key value ttl⟩ (.redis c) = (.ok none,.redis _) := unit h1
    exact ⟨by rw [step,hreq]; rfl,_,congrArg Prod.snd hreq,h3.trans hc,h2⟩
  | delete key =>
    obtain ⟨h1,h2,h3⟩ := orFallback_contents (r := ⟨env,.delete key⟩) (fun _ => ())
      (f := RedisServer.del key.asString)
      ⟨rfl,redis_update _ _ _⟩ (inMemory_delete_spec env key c.fallback)
    have hreq : request ⟨env,.delete key⟩ (.redis c) = (.ok none,.redis _) := unit h1
    exact ⟨by rw [step,hreq]; rfl,_,congrArg Prod.snd hreq,h3.trans hc,h2⟩

def logAt (config : CacheCircuitBreakerConfig) (l : List Request) (n : Nat) : Log :=
  Machine.outputs step (l.take n) (.redis (RedisCache.withConfig config))

def backendAt (config : CacheCircuitBreakerConfig) (l : List Request) (n : Nat) : CacheBackend :=
  Machine.final step (l.take n) (.redis (RedisCache.withConfig config))

theorem contents_taken (config : CacheCircuitBreakerConfig) (l : List Request) :
    ∃ c, Machine.final step l (.redis (RedisCache.withConfig config)) = .redis c ∧
      c.fallback.maxSize = 0 ∧
      (∀ o∈Machine.outputs step l (.redis (RedisCache.withConfig config)), ∃ a, o.2.1 = .ok a) ∧
      ∀ p, contents p c =
        taken p (Machine.outputs step l (.redis (RedisCache.withConfig config))) := by
  induction l using List.reverseRecOn with
  | nil =>
    refine ⟨RedisCache.withConfig config,rfl,rfl,by simp [Machine.outputs],fun p => ?_⟩
    cases p <;> rfl
  | append_singleton l r ih =>
    obtain ⟨c,hb,hm,hacks,hcont⟩ := ih
    obtain ⟨ho,c',hb',hm',hcont'⟩ := step_spec r hm
    refine ⟨c',by rw [Machine.final_snoc,hb,hb'],hm',fun o hin => ?_,fun p => ?_⟩
    · rw [Machine.outputs_append,hb] at hin
      obtain hin | hin := List.mem_append.mp hin
      · exact hacks o hin
      · rw [List.mem_singleton.mp hin]
        exact ⟨_,congrArg Prod.fst ho⟩
    · rw [Machine.outputs_append,hb,hcont' p,hcont p]
      simp only [Machine.outputs,taken,List.foldl_append,List.foldl_cons,List.foldl_nil]
      rw [ho]

/-- What a logged operation does to the entry of `key` in the store `p`. -/
def touches (p : Place) (key : CacheKey) (o : Logged) :
    Register.Effect TimedValue :=
  if o.2.2 = p ∧ o.1.op.key = key then
    match o.1.op with
    | .get _ => .check fun x => reading p o.1.env < x.expiresAt
    | .set _ value ttl => .assign (some ⟨value,deadline p o.1.env ttl⟩)
    | .delete _ => .assign none
  else .leave

theorem taken_eq (p : Place) (key : CacheKey) (log : Log) :
    taken p log key = Register.after (touches p key) log none := by
  refine Register.foldl_apply key (fun m o => ?_) log fun _ => none
  obtain ⟨⟨env,op⟩,reply,q⟩ := o
  by_cases hq : q = p
  · cases op with
    | get k =>
      by_cases hk : k = key
      · simp [touches,keep,Op.key,alive,hq,hk]
      · simp [touches,keep,Op.key,hq,hk,Ne.symm hk]
    | set k value ttl | delete k =>
      by_cases hk : k = key
      · simp [touches,keep,Op.key,hq,hk]
      · simp [touches,keep,Op.key,hq,hk,Ne.symm hk]
  · simp [touches,hq]

def records (key : CacheKey) (o : Logged) :
    Register.Effect String :=
  match o.1.op,o.2.1 with
  | .set k value _,.ok _ => if k = key then .assign (some value) else .leave
  | .delete k,.ok _ => if k = key then .assign none else .leave
  | _,_ => .leave

theorem latest_eq (key : CacheKey) (log : Log) :
    latest log key = Register.after (records key) log none := by
  refine Register.foldl_apply key (fun m o => ?_) log fun _ => none
  obtain ⟨⟨env,op⟩,reply,q⟩ := o
  cases reply with
  | error e => cases op <;> simp [records]
  | ok a =>
    cases op with
    | get k => simp [records]
    | set k value ttl | delete k =>
      by_cases hk : k = key
      · simp [records,hk]
      · simp [records,hk,Ne.symm hk]

/-- The store `p` has taken a write of `value` to `key` and, routed to it since, no other write of
the key and no lookup for which the value had run out; nor has it at `env`. -/
def Live (p : Place) (env : Surroundings) (key : CacheKey) (value : String) (since log : Log) :
    Prop :=
  ∃ before written ttl reply, log = before++(⟨written,.set key value ttl⟩,reply,p)::since ∧
    reading p env < deadline p written ttl ∧
    ∀ o∈since, o.2.2 = p → o.1.op.writes key = false ∧
      (o.1.op = .get key → reading p o.1.env < deadline p written ttl)

/-- No operation wrote `key`, or the last one that did wrote `value`. -/
def Leaves (key : CacheKey) (value : String) (since : Log) : Prop :=
  (∀ o∈since, o.1.op.writes key = false) ∨
    ∃ earlier o later ttl, since = earlier++o::later ∧ o.1.op = .set key value ttl ∧
      ∀ x∈later, x.1.op.writes key = false

theorem keeps_touches_iff {p : Place} {key : CacheKey} {x : TimedValue} {o : Logged} :
    (touches p key o).Keeps x ↔ (o.2.2 = p → o.1.op.writes key = false ∧
      (o.1.op = .get key → reading p o.1.env < x.expiresAt)) := by
  obtain ⟨⟨env,op⟩,reply,q⟩ := o
  cases op with
  | get k => by_cases hq : q = p <;> by_cases hk : k = key <;>
      simp [touches,Op.key,Op.writes,hq,hk]
  | set k value ttl | delete k => by_cases hq : q = p <;> by_cases hk : k = key <;>
      simp [touches,Op.key,Op.writes,hq,hk]

theorem touches_eq_assign_iff {p : Place} {key : CacheKey} {x : TimedValue} {o : Logged} :
    touches p key o = .assign (some x) ↔ ∃ env ttl reply,
      o = (⟨env,.set key x.value ttl⟩,reply,p) ∧ deadline p env ttl = x.expiresAt := by
  obtain ⟨⟨env,op⟩,reply,q⟩ := o
  obtain ⟨value,expiresAt⟩ := x
  by_cases hq : q = p
  · subst hq
    cases op with
    | get k | delete k => by_cases hk : k = key <;> simp [touches,Op.key,hk]
    | set k v ttl =>
      by_cases hk : k = key
      · subst hk
        simp [touches,Op.key]
      · simp [touches,Op.key,hk]
  · simp [touches,hq]

/-- A lookup in the store `p` finds a value exactly if `p` has taken a live write of it. -/
theorem taken_live_iff {p : Place} {env : Surroundings} {key : CacheKey} {value : String}
    {log : Log} : (∃ x, taken p log key = some x ∧ reading p env < x.expiresAt ∧ x.value = value) ↔
      ∃ since, Live p env key value since log := by
  simp only [taken_eq,Register.after_eq_some_iff,reduceCtorEq,false_and,false_or]
  constructor
  · intro h
    obtain ⟨x,⟨before,o,since,rfl,hassign,hkeeps⟩,hlive,rfl⟩ := h
    obtain ⟨written,ttl,reply,rfl,hdeadline⟩ := touches_eq_assign_iff.mp hassign
    refine ⟨since,before,written,ttl,reply,rfl,hdeadline ▸ hlive,fun o ho hp => ?_⟩
    rw [hdeadline]
    exact keeps_touches_iff.mp (hkeeps o ho) hp
  · intro h
    obtain ⟨since,before,written,ttl,reply,rfl,hlive,hsince⟩ := h
    refine ⟨⟨value,deadline p written ttl⟩,⟨before,_,since,rfl,?_,fun o ho => ?_⟩,hlive,rfl⟩
    · exact touches_eq_assign_iff.mpr ⟨written,ttl,reply,rfl,rfl⟩
    · exact keeps_touches_iff.mpr (hsince o ho)

theorem keeps_records_iff {key : CacheKey} {value : String} {o : Logged}
    (hack : ∃ a, o.2.1 = .ok a) :
    (records key o).Keeps value ↔ o.1.op.writes key = false := by
  obtain ⟨⟨env,op⟩,reply,q⟩ := o
  obtain ⟨a,rfl⟩ := hack
  cases op with
  | get k => simp [records,Op.writes]
  | set k v ttl | delete k => by_cases hk : k = key <;> simp [records,Op.writes,hk]

theorem records_eq_assign_iff {key : CacheKey} {value : String} {o : Logged}
    (hack : ∃ a, o.2.1 = .ok a) :
    records key o = .assign (some value) ↔ ∃ ttl, o.1.op = .set key value ttl := by
  obtain ⟨⟨env,op⟩,reply,q⟩ := o
  obtain ⟨a,rfl⟩ := hack
  cases op with
  | get k => simp [records]
  | set k v ttl | delete k => by_cases hk : k = key <;> simp [records,hk]

/-- A write that a store has taken is the latest one, or as good as that, exactly if what came
after it leaves its value. -/
theorem latest_iff_leaves {p : Place} {env : Surroundings} {key : CacheKey} {value : String}
    {since log : Log} (h : Live p env key value since log) (hacks : ∀ o∈log, ∃ a, o.2.1 = .ok a) :
    latest log key = some value ↔ Leaves key value since := by
  obtain ⟨before,written,ttl,reply,rfl,-,-⟩ := h
  have hwritten := hacks _ (List.mem_append_right before List.mem_cons_self)
  have hsince (o) (ho : o∈since) : ∃ a, o.2.1 = .ok a :=
    hacks o (List.mem_append_right before (List.mem_cons_of_mem _ ho))
  have hassign : records key (⟨written,.set key value ttl⟩,reply,p) = .assign (some value) :=
    (records_eq_assign_iff hwritten).mpr ⟨ttl,rfl⟩
  rw [latest_eq,Register.after_append,Register.after,List.foldl_cons,hassign,
    Register.apply_assign,← Register.after,Register.after_eq_some_iff,Leaves]
  simp only [true_and]
  refine or_congr (forall₂_congr fun o ho => keeps_records_iff (hsince o ho)) ?_
  constructor
  · intro h
    obtain ⟨earlier,o,later,rfl,hassign,hkeeps⟩ := h
    obtain ⟨ttl,hop⟩ := (records_eq_assign_iff (hsince o (by simp))).mp hassign
    exact ⟨earlier,o,later,ttl,rfl,hop,fun x hx =>
      (keeps_records_iff (hsince x (by simp [hx]))).mp (hkeeps x hx)⟩
  · intro h
    obtain ⟨earlier,o,later,ttl,rfl,hop,hlater⟩ := h
    exact ⟨earlier,o,later,rfl,(records_eq_assign_iff (hsince o (by simp))).mpr ⟨ttl,hop⟩,
      fun x hx => (keeps_records_iff (hsince x (by simp [hx]))).mpr (hlater x hx)⟩

/-- No read returns anything but the latest acknowledged write of its key. -/
def NeverStale (config : CacheCircuitBreakerConfig) (l : List Request) : Prop :=
  ∀ n env key value, l[n]? = some ⟨env,.get key⟩ →
    (step ⟨env,.get key⟩ (backendAt config l n)).1.1 = .ok (some value) →
    latest (logAt config l n) key = some value

/-- Whenever a lookup is routed to a store that has taken a live write of the key, no later write
of the key was routed to the other store, or the last of them wrote the same value. -/
def Settled (config : CacheCircuitBreakerConfig) (l : List Request) : Prop :=
  ∀ n env key, l[n]? = some ⟨env,.get key⟩ → ∀ value since,
    Live (place env (backendAt config l n)) env key value since (logAt config l n) →
    Leaves key value since

/-- Reads are free of stale values exactly in the settled runs. -/
theorem never_stale_iff (config : CacheCircuitBreakerConfig) (l : List Request) :
    NeverStale config l ↔ Settled config l := by
  have read (n : Nat) (env : Surroundings) (key : CacheKey) (value : String) :
      (step ⟨env,.get key⟩ (backendAt config l n)).1.1 = .ok (some value) ↔
        ∃ since, Live (place env (backendAt config l n)) env key value since
          (logAt config l n) := by
    obtain ⟨c,hb,hm,-,hcont⟩ := contents_taken config (l.take n)
    have hb' : backendAt config l n = .redis c := hb
    obtain ⟨ho,_⟩ := step_spec ⟨env,.get key⟩ hm
    rw [hb',ho,← taken_live_iff]
    simp only [answer,hcont,Except.ok.injEq,Option.map_eq_some_iff,alive,Option.filter_eq_some_iff,
      decide_eq_true_eq,and_assoc,logAt]
  have hacks (n : Nat) : ∀ o∈logAt config l n, ∃ a, o.2.1 = .ok a := by
    obtain ⟨_,_,_,hacks,_⟩ := contents_taken config (l.take n)
    exact hacks
  constructor
  · intro hns n env key hn value since hlive
    exact (latest_iff_leaves hlive (hacks n)).mp
      (hns n env key value hn ((read n env key value).mpr ⟨since,hlive⟩))
  · intro hset n env key value hn hans
    obtain ⟨since,hlive⟩ := (read n env key value).mp hans
    exact (latest_iff_leaves hlive (hacks n)).mpr (hset n env key hn value since hlive)

/-- A value is written, replaced while Redis refuses one command, and read again
after Redis is back: the old value returns. -/
theorem stale_read_after_recovery :
    let up : Surroundings := ⟨0,0,0,true,true,true,0,0⟩
    let down : Surroundings := { up with command := false }
    let key := CacheKey.config "limit"
    let l : List Request := [⟨up,.set key "old" 60⟩,⟨down,.set key "new" 60⟩,⟨up,.get key⟩]
    (step ⟨up,.get key⟩ (backendAt .default l 2)).1 = (.ok (some "old"),.redis) ∧
      ¬NeverStale .default l := by
  intro up down key l
  have hread : (step ⟨up,.get key⟩ (backendAt .default l 2)).1 = (.ok (some "old"),.redis) := by
    decide +kernel
  refine ⟨hread,fun hns => ?_⟩
  have hold := hns 2 up key "old" rfl (congrArg Prod.fst hread)
  have hnew : latest (logAt .default l 2) key = some "new" := by decide +kernel
  rw [hnew] at hold
  exact absurd hold (by decide)

end ProofStell.Cache
