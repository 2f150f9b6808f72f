import ExpiringCache.Proofs.Contents
import ExpiringCache.TendedStore

/-! A store against its history. A bystander with a clock notes what is done to a store and
when the sweeper sweeps, which it can tell from the interval alone. An entry stands if it was
written and nothing since was a write to its key or removed it. The store holds the entries
that stand and no others (`holds_what_stands`), so that is what a look, a mark and a purge
find, at any instant. -/

namespace ExpiringCache

universe u

variable {α : Type u}

/-- Something done to a store. A purge is made at once or through a running sweeper. -/
inductive StoreDeed (α : Type u) where
  | wrote (key : String) (e : Entry α)
  | cleared
  | purged (p : Purge)
  | swept (now : Int)
deriving DecidableEq, Repr

namespace StoreDeed

/-- The deed leaves the entry `e` of `k` in its place. -/
def Spares (k : String) (e : Entry α) : StoreDeed α → Prop
  | .wrote j _ => j ≠ k
  | .cleared => False
  | .purged p => p ≠ ⟨k, e.expiresAt⟩
  | .swept now => now ≤ e.expiresAt

instance (k : String) (e : Entry α) : (d : StoreDeed α) → Decidable (d.Spares k e)
  | .wrote j _ => inferInstanceAs (Decidable (j ≠ k))
  | .cleared => inferInstanceAs (Decidable False)
  | .purged p => inferInstanceAs (Decidable (p ≠ ⟨k, e.expiresAt⟩))
  | .swept now => inferInstanceAs (Decidable (now ≤ e.expiresAt))

/-- The entry `e` of `k` was written, and everything since has spared it. Records run
backwards, the latest deed first. -/
def Stands (past : List (StoreDeed α)) (k : String) (e : Entry α) : Prop :=
  ∃ since before, past = since ++ .wrote k e :: before ∧ ∀ d ∈ since, d.Spares k e

theorem not_stands_nil {k : String} {e : Entry α} : ¬Stands [] k e := by
  rintro ⟨since, before, hpast, -⟩
  cases since <;> cases hpast

/-- The latest deed wrote the entry, or it spared it. -/
theorem stands_cons_iff {d : StoreDeed α} {past : List (StoreDeed α)} {k : String}
    {e : Entry α} : Stands (d :: past) k e ↔ d = .wrote k e ∨ d.Spares k e ∧ Stands past k e := by
  constructor
  · rintro ⟨since, before, hpast, hsince⟩
    cases since with
    | nil => exact .inl (List.cons.inj hpast).1
    | cons c since =>
      obtain ⟨rfl, hrest⟩ := List.cons.inj hpast
      exact .inr ⟨hsince d (.head _), since, before, hrest, fun c hc => hsince c (.tail _ hc)⟩
  · rintro (rfl | ⟨hspared, since, before, rfl, hsince⟩)
    · exact ⟨[], past, rfl, fun _ hd => nomatch hd⟩
    · refine ⟨d :: since, before, rfl, fun c hc => ?_⟩
      rcases List.mem_cons.1 hc with rfl | hc
      · exact hspared
      · exact hsince c hc

theorem stands_wrote_iff {past : List (StoreDeed α)} {k j : String} {e f : Entry α} :
    Stands (.wrote k e :: past) j f ↔ if j = k then f = e else Stands past j f := by
  rw [stands_cons_iff]
  by_cases h : j = k
  · subst h
    simp [Spares, eq_comm]
  · simp [Spares, h, Ne.symm h]

theorem stands_purged_iff {p : Purge} {past : List (StoreDeed α)} {k : String} {e : Entry α} :
    Stands (.purged p :: past) k e ↔ Stands past k e ∧ ⟨k, e.expiresAt⟩ ∉ [p] := by
  rw [stands_cons_iff, List.mem_singleton, and_comm]
  simp [Spares, eq_comm]

theorem not_stands_cleared {past : List (StoreDeed α)} {k : String} {e : Entry α} :
    ¬Stands (.cleared :: past) k e := by
  simp [stands_cons_iff, Spares]

end StoreDeed

open StoreDeed (Stands)

/-! ### The bystander -/

/-- One who follows the steps of a store on a clock, without a look into it. If there is a
sweeper, its interval is known. -/
structure Bystander (α : Type u) where
  interval : Option Nat
  clock : Int
  lastSweep : Int
  running : Bool
  past : List (StoreDeed α)
deriving DecidableEq

namespace Bystander

def start (interval : Option Nat) (now : Int) : Bystander α := ⟨interval, now, now, true, []⟩

def note (b : Bystander α) (d : StoreDeed α) : Bystander α := { b with past := d :: b.past }

/-- A running sweeper sweeps when an interval has passed since its last sweep, or since its
start. -/
def isDue (b : Bystander α) : Bool :=
  b.running && b.interval.any fun i => Time.deadline b.lastSweep i ≤ b.clock

/-- The sweeper's turn. -/
def turn (b : Bystander α) : Bystander α :=
  if b.isDue then { b with lastSweep := b.clock }.note (.swept b.clock) else b

theorem turn_of_stopped {b : Bystander α} (h : b.running = false) : b.turn = b := by
  simp [turn, isDue, h]

theorem turn_of_untended {b : Bystander α} (h : b.interval = none) : b.turn = b := by
  simp [turn, isDue, h]

/-- What comes of a step. The sweeper has its turn when the clock has moved, when a purge is
asked of it, and before it stops. -/
def see (b : Bystander α) : StoreStep α → Bystander α
  | .insert k v e => b.note (.wrote k ⟨v, e⟩)
  | .insertAfter k v after => b.note (.wrote k ⟨v, Time.deadline b.clock after⟩)
  | .poison k v e => b.note (.wrote k ⟨v, e⟩)
  | .purge p => b.note (.purged p)
  | .clear => b.note .cleared
  | .advance d => { b with clock := b.clock + d }.turn
  | .schedule p => if b.running then (b.note (.purged p)).turn else b
  | .stop => { b.turn with running := false }
  | _ => b

theorem interval_turn (b : Bystander α) : b.turn.interval = b.interval := by
  rw [turn]
  split <;> rfl

theorem interval_see (b : Bystander α) (s : StoreStep α) : (b.see s).interval = b.interval := by
  cases s with
  | advance d => exact interval_turn _
  | stop => exact interval_turn b
  | schedule p =>
    rw [see]
    split
    · exact interval_turn _
    · rfl
  | _ => rfl

def seeAll (b : Bystander α) (ss : List (StoreStep α)) : Bystander α := ss.foldl see b

/-- The sweeper as it has to be, with these purges to carry out. -/
def sweeper (b : Bystander α) (queue : List Purge) : Option Sweeper :=
  b.interval.map fun i => ⟨i, Time.deadline b.lastSweep i, queue, b.running⟩

end Bystander

/-- The step concerns the sweeper and has no answer without one. -/
def StoreStep.asksSweeper : StoreStep α → Bool
  | .schedule _ | .running | .interval | .debug | .stop => true
  | _ => false

namespace TendedStore

/-! ### What the steps do -/

theorem settle_of_untended {t : TendedStore α} (h : t.sweeper = none) : t.settle = t := by
  rw [settle, h]

theorem settle_of_tended {t : TendedStore α} {w : Sweeper} (h : t.sweeper = some w) :
    t.settle =
      { t with
        sweeper := some (w.settle t.store t.clock).1
        store := (w.settle t.store t.clock).2 } := by
  rw [settle, h]

theorem settle_of_stopped {t : TendedStore α} {w : Sweeper} (h : t.sweeper = some w)
    (hstopped : w.running = false) : t.settle = t := by
  rw [settle_of_tended h, Sweeper.settle_of_stopped hstopped, ← h]

/-- The store with more in its journal. -/
def report (t : TendedStore α) (events : List Event) : TendedStore α :=
  { t with journal := t.journal ++ events }

section Tend

variable {t : TendedStore α} {w : Sweeper}

theorem step_of_tended (h : t.sweeper = some w) {s : StoreStep α} (hs : s.asksSweeper = true) :
    t.step s = t.tend w s := by
  have hstep : t.step s = t.sweeper.bind (t.tend · s) := by
    cases s with
    | schedule | running | interval | debug | stop => rfl
    | _ => cases hs
  rw [hstep, h, Option.bind_some]

theorem tend_schedule_of_running (h : w.running = true) (p : Purge) :
    t.tend w (.schedule p) = some (.done,
      { t.report [] with sweeper := some { w with queue := w.queue ++ [p] } }.settle) := by
  simp only [tend, Sweeper.schedule, h, if_true, report]

/-- A sweeper that is stopped drops the purge and says so. -/
theorem tend_schedule_of_stopped (h : t.sweeper = some w) (hstopped : w.running = false)
    (p : Purge) : t.tend w (.schedule p) = some (.done, t.report [.purgeDropped p.key]) := by
  have hsettle : (t.report [.purgeDropped p.key]).settle = t.report [.purgeDropped p.key] :=
    settle_of_stopped h hstopped
  rw [← hsettle]
  simp [tend, Sweeper.schedule, hstopped, report, h]

/-- A sweeper that is stopped has its turn before. -/
theorem tend_stop_of_running (h : t.sweeper = some w) (hrunning : w.running = true) :
    t.tend w .stop = some (.stopped,
      { t.settle.report [.sweeperStopped] with
        sweeper := t.settle.sweeper.map fun w => { w with running := false } }) := by
  simp [tend, Sweeper.stop, hrunning, settle_of_tended h, report]

theorem tend_stop_of_stopped (hstopped : w.running = false) :
    t.tend w .stop = some (.refused .alreadyStopped, t) := by
  simp [tend, Sweeper.stop, hstopped]

end Tend

/-- The store holds what stands by the account of the bystander, who takes the purges in the
queue of a running sweeper for made. -/
structure Follows (queue : List Purge) (t : TendedStore α) (b : Bystander α) : Prop where
  clock : t.clock = b.clock
  sweeper : t.sweeper = b.sweeper queue
  stands : ∀ k e, t.store.find? k = some e ∧ ⟨k, e.expiresAt⟩ ∉ queue ↔ Stands b.past k e
  idle : b.interval = none ∨ b.running = false → queue = []

namespace Follows

variable {t : TendedStore α} {b : Bystander α}

theorem start (interval : Option Nat) (now : Int) :
    Follows [] (TendedStore.start interval now : TendedStore α) (.start interval now) where
  clock := rfl
  sweeper := by cases interval <;> rfl
  stands := by
    intro k e
    refine iff_of_false ?_ StoreDeed.not_stands_nil
    rintro ⟨he, -⟩
    cases he
  idle := fun _ => rfl

theorem find?_eq_some_iff (h : Follows [] t b) {k : String} {e : Entry α} :
    t.store.find? k = some e ↔ Stands b.past k e := by
  rw [← h.stands]
  simp

theorem tended {queue : List Purge} (h : Follows queue t b) {i : Nat} (hi : b.interval = some i) :
    t.sweeper = some ⟨i, Time.deadline b.lastSweep i, queue, b.running⟩ := by
  rw [h.sweeper, Bystander.sweeper, hi]
  rfl

/-- A store whose sweeper runs has its purges made, and loses what has expired if a sweep is
due. -/
theorem settle_of_running {queue : List Purge} (h : Follows queue t b) {i : Nat}
    (hi : b.interval = some i) (hrunning : b.running = true) : Follows [] t.settle b.turn := by
  have hsweeper := h.tended hi
  rw [hrunning] at hsweeper
  rw [settle_of_tended hsweeper]
  have hdue : b.isDue = decide (Time.deadline b.lastSweep i ≤ b.clock) := by
    rw [Bystander.isDue, hrunning, hi]
    rfl
  refine ⟨?_, ?_, fun k e => ?_, fun _ => rfl⟩
  · rw [Bystander.turn]
    split <;> exact h.clock
  · simp only [Sweeper.fst_settle, Bystander.turn, hdue, h.clock, decide_eq_true_eq]
    split <;> simp [Bystander.sweeper, Bystander.note, hi, hrunning]
  · simp only [Sweeper.find?_settle, Option.filter_eq_some_iff, decide_eq_true_eq, h.clock,
      List.not_mem_nil, not_false_eq_true, and_true]
    rw [← and_assoc, h.stands, Bystander.turn, hdue]
    by_cases hd : Time.deadline b.lastSweep i ≤ b.clock
    · simp [hd, Bystander.note, StoreDeed.stands_cons_iff, StoreDeed.Spares, and_comm]
    · simp [hd]

/-- The sweeper's turn. -/
theorem settle {queue : List Purge} (h : Follows queue t b) : Follows [] t.settle b.turn := by
  cases hi : b.interval with
  | none =>
    obtain rfl := h.idle (.inl hi)
    have hsweeper : t.sweeper = none := by
      rw [h.sweeper, Bystander.sweeper, hi]
      rfl
    rwa [settle_of_untended hsweeper, Bystander.turn_of_untended hi]
  | some i =>
    cases hrunning : b.running with
    | true => exact h.settle_of_running hi hrunning
    | false =>
      obtain rfl := h.idle (.inr hrunning)
      have hsweeper := h.tended hi
      rw [hrunning] at hsweeper
      rwa [settle_of_stopped hsweeper rfl, Bystander.turn_of_stopped hrunning]

/-- A write. -/
theorem insert (h : Follows [] t b) (k : String) (v : α) (e : Int) :
    Follows [] (t.insert k v e) (b.note (.wrote k ⟨v, e⟩)) := by
  refine ⟨h.clock, h.sweeper, fun j f => ?_, h.idle⟩
  show (t.store.insert k ⟨v, e⟩).find? j = some f ∧ _ ↔ Stands (.wrote k ⟨v, e⟩ :: b.past) j f
  rw [StoreDeed.stands_wrote_iff, Store.find?_insert]
  split
  · simp [eq_comm]
  · exact h.stands j f

/-- A purge made at once. -/
theorem purge (h : Follows [] t b) (p : Purge) :
    Follows [] { t with store := t.store.purge p } (b.note (.purged p)) := by
  refine ⟨h.clock, h.sweeper, fun j f => ?_, h.idle⟩
  show (t.store.purgeEach [p]).2.find? j = some f ∧ _ ↔ Stands (.purged p :: b.past) j f
  rw [Store.find?_purgeEach, StoreDeed.stands_purged_iff, Option.filter_eq_some_iff,
    h.find?_eq_some_iff, decide_eq_true_iff]
  exact and_iff_left List.not_mem_nil

theorem clear (h : Follows [] t b) :
    Follows [] { t with store := .empty } (b.note .cleared) := by
  refine ⟨h.clock, h.sweeper, fun j f => ?_, h.idle⟩
  refine iff_of_false ?_ StoreDeed.not_stands_cleared
  rintro ⟨hfound, -⟩
  cases hfound

theorem advance (h : Follows [] t b) (d : Nat) :
    Follows [] { t with clock := t.clock + d } { b with clock := b.clock + d } :=
  ⟨congrArg (· + (d : Int)) h.clock, h.sweeper, h.stands, h.idle⟩

theorem report (h : Follows [] t b) (events : List Event) : Follows [] (t.report events) b :=
  ⟨h.clock, h.sweeper, h.stands, h.idle⟩

/-- A purge asked of a running sweeper waits in its queue. -/
theorem queue (h : Follows [] t b) {i : Nat} (hi : b.interval = some i)
    (hrunning : b.running = true) (p : Purge) :
    Follows [p] { t with sweeper := some ⟨i, Time.deadline b.lastSweep i, [p], true⟩ }
      (b.note (.purged p)) := by
  refine ⟨h.clock, ?_, fun j f => ?_, fun hidle => ?_⟩
  · simp [Bystander.sweeper, Bystander.note, hi, hrunning]
  · show t.store.find? j = some f ∧ _ ↔ Stands (.purged p :: b.past) j f
    rw [StoreDeed.stands_purged_iff, h.find?_eq_some_iff]
  · rcases hidle with hnone | hstopped
    · exact absurd (hi.symm.trans hnone) (by simp)
    · exact absurd (hrunning.symm.trans hstopped) (by simp)

/-- A sweeper that has had its turn is halted. -/
theorem halt (h : Follows [] t b) :
    Follows [] { t with sweeper := t.sweeper.map fun w => { w with running := false } }
      { b with running := false } := by
  refine ⟨h.clock, ?_, h.stands, fun _ => rfl⟩
  simp only [h.sweeper, Bystander.sweeper, Option.map_map]
  rfl

/-! ### Steps and runs -/

/-- A step that concerns the sweeper. -/
theorem tend (h : Follows [] t b) {i : Nat} (hi : b.interval = some i) {s : StoreStep α}
    (hs : s.asksSweeper = true) :
    ∃ r next, t.step s = some (r, next) ∧ Follows [] next (b.see s) := by
  have hsweeper := h.tended hi
  rw [step_of_tended hsweeper hs]
  cases hrunning : b.running with
  | true =>
    rw [hrunning] at hsweeper
    cases s with
    | schedule p =>
      refine ⟨_, _, tend_schedule_of_running rfl p, ?_⟩
      rw [Bystander.see, if_pos hrunning]
      exact ((h.report []).queue hi hrunning p).settle
    | stop => exact ⟨_, _, tend_stop_of_running hsweeper rfl, (h.settle.report _).halt⟩
    | running | interval | debug => exact ⟨_, _, rfl, h⟩
    | _ => cases hs
  | false =>
    rw [hrunning] at hsweeper
    cases s with
    | schedule p =>
      refine ⟨_, _, tend_schedule_of_stopped hsweeper rfl p, ?_⟩
      rw [Bystander.see, if_neg (by simp [hrunning])]
      exact h.report _
    | stop =>
      have hsee : b.see .stop = b := by
        rw [Bystander.see, Bystander.turn_of_stopped hrunning, ← hrunning]
      refine ⟨_, _, tend_stop_of_stopped rfl, ?_⟩
      rwa [hsee]
    | running | interval | debug => exact ⟨_, _, rfl, h⟩
    | _ => cases hs

/-- A step has an answer, and the store and the bystander stay in agreement. -/
theorem step (h : Follows [] t b) {s : StoreStep α}
    (hs : s.asksSweeper = true → b.interval.isSome = true) :
    ∃ r next, t.step s = some (r, next) ∧ Follows [] next (b.see s) := by
  cases s with
  | insert k v e => exact ⟨_, _, rfl, h.insert k v e⟩
  | insertAfter k v after =>
    refine ⟨_, _, rfl, ?_⟩
    rw [Bystander.see, ← h.clock]
    exact h.insert k v _
  | poison k v e => exact ⟨_, _, rfl, h.insert k v e⟩
  | look k at? => exact ⟨_, _, rfl, h⟩
  | purge p => exact ⟨_, _, rfl, h.purge p⟩
  | mark at? => exact ⟨_, _, rfl, h⟩
  | isEmpty => exact ⟨_, _, rfl, h⟩
  | clear => exact ⟨_, _, rfl, h.clear⟩
  | dump => exact ⟨_, _, rfl, h⟩
  | advance d => exact ⟨_, _, rfl, (h.advance d).settle⟩
  | _ =>
    obtain ⟨i, hi⟩ := Option.isSome_iff_exists.1 (hs rfl)
    exact h.tend hi rfl

/-- A run has an answer for every step, and the size told last is that of the store. -/
theorem run (h : Follows [] t b) {ss : List (StoreStep α)}
    (hss : ∀ s ∈ ss, s.asksSweeper = true → b.interval.isSome = true) :
    ∃ replies last, t.run ss = some (replies, last) ∧ Follows [] last (b.seeAll ss) ∧
      (t.store.size :: replies.map (·.2)).getLast? = some last.store.size := by
  induction ss generalizing t b with
  | nil => exact ⟨[], t, rfl, h, rfl⟩
  | cons s ss ih =>
    obtain ⟨r, next, hstep, hnext⟩ := h.step (hss s (.head _))
    obtain ⟨replies, last, hrun, hlast, hsize⟩ := ih hnext fun u hu => by
      rw [Bystander.interval_see]
      exact hss u (.tail _ hu)
    refine ⟨(r, next.store.size) :: replies, last, ?_, hlast, ?_⟩
    · simp [TendedStore.run, hstep, hrun]
    · rw [List.map_cons, List.getLast?_cons_cons]
      exact hsize

end Follows

/-- Whatever is done to a store, with a sweeper or without one, every step has an answer. The
store then holds the entries that stand, at most one for a key. At any instant a look finds
no entry if none stands, one that has expired if its expiry has passed, and a live one
otherwise. A mark at that instant lists what such looks find expired, each once, and removes
nothing. The size is the number of keys for which a look finds something. A purge says that
it removed something exactly if it did, which is when an entry with its token stands. -/
theorem holds_what_stands (interval : Option Nat) (begun : Int) (ss : List (StoreStep α))
    (h : ∀ s ∈ ss, s.asksSweeper = true → interval.isSome = true) :
    ∃ replies last, (start interval begun).run ss = some (replies, last) ∧
      let b := (Bystander.start interval begun).seeAll ss
      last.clock = b.clock ∧
      (0 :: replies.map (·.2)).getLast? = some last.store.size ∧
      (∃ bs, last.step .dump = some (.dumped bs, last) ∧ (bs.map (·.1)).Nodup ∧
        ∀ k e, (k, e) ∈ bs ↔ Stands b.past k e) ∧
      ∀ t : Int,
        (∀ k, ∃ f, last.step (.look k (some t)) = some (.looked f, last) ∧
          (f = .absent ↔ ∀ e, ¬Stands b.past k e) ∧
          (∀ x, f = .expired x ↔ ∃ e, Stands b.past k e ∧ e.expiresAt < t ∧ e.expiresAt = x) ∧
          ∀ v, f = .live v ↔ ∃ e, Stands b.past k e ∧ t ≤ e.expiresAt ∧ e.value = v) ∧
        (∃ ps, last.step (.mark (some t)) = some (.marked ps, last) ∧ ps.Nodup ∧
          ∀ p, p ∈ ps ↔
            last.step (.look p.key (some t)) = some (.looked (.expired p.token), last)) ∧
        (∃ keys : Finset String, last.store.size = keys.card ∧
          ∀ k, k ∈ keys ↔ last.step (.look k (some t)) ≠ some (.looked .absent, last)) ∧
        ∀ p, ∃ removed next, last.step (.purge p) = some (.truth removed, next) ∧
          (removed = true ↔ next.store ≠ last.store) ∧
          (removed = true ↔ ∃ e, Stands b.past p.key e ∧ e.expiresAt = p.token) := by
  obtain ⟨replies, last, hrun, hlast, hsize⟩ := (Follows.start interval begun).run h
  have hfind (k : String) (e : Entry α) := hlast.find?_eq_some_iff (k := k) (e := e)
  refine ⟨replies, last, hrun, hlast.clock, hsize,
    ⟨_, rfl, last.store.nodup_keys, fun k e => ?_⟩, fun t => ⟨fun k => ⟨_, rfl, ?_, fun x => ?_,
      fun v => ?_⟩, ⟨_, rfl, last.store.nodup_mark t, fun p => ?_⟩, ⟨last.store.keys, ?_,
      fun k => ?_⟩, fun p => ⟨_, _, rfl, ?_, ?_⟩⟩⟩
  · rw [← Store.find?_eq_some_iff, hfind]
  · rw [Store.look_eq_absent_iff, Option.eq_none_iff_forall_ne_some]
    exact forall_congr' fun e => not_congr (hfind k e)
  · rw [Option.getD_some, Store.look_eq_expired_iff]
    simp only [hfind]
  · rw [Option.getD_some, Store.look_eq_live_iff]
    simp only [hfind]
  · simp [TendedStore.step, Store.mem_mark_iff]
  · exact (Store.card_keys last.store).symm
  · rw [Store.mem_keys]
    simp [TendedStore.step, Store.look_eq_absent_iff, Option.eq_none_iff_forall_ne_some]
  · rw [ne_eq, Store.purge_eq_self_iff, ← ne_eq, Option.isSome_iff_ne_none]
  · rw [Option.isSome_iff_exists]
    simp only [Store.target?_eq_some_iff, hfind]

/-- A sweep takes two entries and a purge that the sweeper is asked for takes a live one. A
value that goes in late stays: the purge for it comes after the sweeper was stopped, and so
does the time for the next sweep. -/
theorem holds_what_stands_after_stop :
    let ss : List (StoreStep Nat) :=
      [.insert "a" 1 3, .poison "b" 2 50, .insertAfter "d" 3 2, .advance 5, .insert "a" 4 1,
        .schedule ⟨"b", 50⟩, .stop, .schedule ⟨"a", 1⟩, .advance 100]
    let past : List (StoreDeed Nat) :=
      [.purged ⟨"b", 50⟩, .wrote "a" ⟨4, 1⟩, .swept 5, .wrote "d" ⟨3, 2⟩, .wrote "b" ⟨2, 50⟩,
        .wrote "a" ⟨1, 3⟩]
    (∀ s ∈ ss, s.asksSweeper = true → (some 4).isSome = true) ∧
      ((Bystander.start (some 4) 0).seeAll ss).past = past ∧
      ∃ replies last, (start (some 4) 0).run ss = some (replies, last) ∧
        last.step (.look "a" (some 1)) = some (.looked (.live 4), last) ∧
        last.step (.look "a" (some 2)) = some (.looked (.expired 1), last) ∧
        last.step (.look "b" (some 2)) = some (.looked .absent, last) := by
  intro ss past
  have hss : ∀ s ∈ ss, s.asksSweeper = true → (some 4).isSome = true := by decide
  have hpast : ((Bystander.start (some 4) 0).seeAll ss).past = past := by decide
  obtain ⟨replies, last, hrun, -, -, -, hfound⟩ := holds_what_stands (some 4) 0 ss hss
  rw [hpast] at hfound
  have hstands : Stands past "a" ⟨4, 1⟩ := by
    refine ⟨[.purged ⟨"b", 50⟩], past.drop 2, rfl, fun d hd => ?_⟩
    obtain rfl := List.mem_singleton.1 hd
    decide
  refine ⟨hss, hpast, replies, last, hrun, ?_, ?_, ?_⟩
  · obtain ⟨f, hlook, -, -, hlive⟩ := (hfound 1).1 "a"
    rw [hlook, (hlive 4).2 ⟨_, hstands, by decide, rfl⟩]
  · obtain ⟨f, hlook, -, hexpired, -⟩ := (hfound 2).1 "a"
    rw [hlook, (hexpired 1).2 ⟨_, hstands, by decide, rfl⟩]
  · obtain ⟨f, hlook, habsent, -, -⟩ := (hfound 2).1 "b"
    rw [hlook, habsent.2 ?_]
    intro e hb
    obtain ⟨hb, hpurged⟩ := StoreDeed.stands_purged_iff.1 hb
    obtain ⟨-, rfl⟩ : 5 ≤ e.expiresAt ∧ (⟨2, 50⟩ : Entry Nat) = e := by
      simpa [StoreDeed.stands_cons_iff, StoreDeed.Spares, StoreDeed.not_stands_nil] using hb
    exact hpurged (by decide)

end TendedStore

end ExpiringCache
