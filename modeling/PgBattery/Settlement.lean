import PgBattery.InFlight

/-! How the gateway settles the answers it awaits, and how that depends on what is queued behind
them. -/
namespace PgBattery
namespace Settlement
open Postcard Analysis Gateway PgBackend InFlight List

structure Tracked where
  prepared : AList fun _ : Bytes => Bytes
  channels : Finset Bytes
  awaiting : List Awaited

def track (g : ConnectionState) : Tracked := ⟨g.prepared,g.channels,g.awaiting⟩

def Tracked.commit (t : Tracked) : ReplayChange → Tracked
  | .listen channel => {t with channels := insert channel t.channels}
  | .unlisten channel => {t with channels := t.channels.erase channel}
  | .unlistenAll => {t with channels := ∅}
  | .deallocate name => {t with prepared := t.prepared.erase name}
  | .deallocateAll => {t with prepared := ∅}
  | .discardAll => {t with prepared := ∅, channels := ∅}

inductive Fate
  | marked
  | lost

/-- What one backend message does to the record. -/
def settle (t : Tracked) : Backend → Except Fate Tracked
  | .parseComplete => match t.awaiting with
    | [] => .error .lost
    | .parse none::rest => .ok {t with awaiting := rest}
    | .parse (some (name,bytes))::rest =>
      if ConnectionState.atCap t.prepared name bytes then .error .marked
      else .ok {t with prepared := t.prepared.insert name bytes, awaiting := rest}
    | .close _::_ | .ready ..::_ => .error .marked
  | .closeComplete => match t.awaiting with
    | [] => .error .lost
    | .close none::rest => .ok {t with awaiting := rest}
    | .close (some name)::rest => .ok {t with prepared := t.prepared.erase name, awaiting := rest}
    | .parse _::_ | .ready ..::_ => .error .marked
  | .errorResponse => match t.awaiting.dropWhile (!·.isReady) with
    | .ready changes controls::rest =>
      if changes = [] then .ok {t with awaiting := .ready changes controls::rest}
      else .error .marked
    | aw => .ok {t with awaiting := aw}
  | .readyForQuery status => match t.awaiting with
    | [] => .error .lost
    | .ready changes controls::rest =>
      if changes = [] then .ok {t with awaiting := rest}
      else if status = .idle ∧ !controls then .ok (changes.foldl Tracked.commit {t with awaiting := rest})
      else .error .marked
    | .parse _::_ | .close _::_ => .error .marked
  | .copyInResponse | .copyOutResponse | .copyBothResponse | .other => .ok t

def settleAll (t : Tracked) (messages : List Backend) : Except Fate Tracked :=
  messages.foldlM settle t

section Settle
variable {t t' : Tracked} {m : Backend} {g : ConnectionState}

theorem settleAll_cons (t : Tracked) (m : Backend) (l : List Backend) :
    settleAll t (m::l) = settle t m >>= fun t' => settleAll t' l := rfl

theorem settleAll_append (t : Tracked) (l₁ l₂ : List Backend) :
    settleAll t (l₁++l₂) = settleAll t l₁ >>= fun t' => settleAll t' l₂ := foldlM_append

theorem track_applyChanges (g : ConnectionState) (changes : List ReplayChange) :
    track (g.applyChanges changes) = changes.foldl Tracked.commit (track g) := by
  rw [ConnectionState.applyChanges]
  induction changes generalizing g with
  | nil => rfl
  | cons change changes ih =>
    have ho : track (g.applyChange change) = (track g).commit change := by cases change <;> rfl
    rw [foldl_cons,foldl_cons,ih,ho]

theorem applyChanges_notMigratable (g : ConnectionState) (changes : List ReplayChange) :
    (g.applyChanges changes).notMigratable = g.notMigratable := by
  rw [ConnectionState.applyChanges]
  induction changes generalizing g with
  | nil => rfl
  | cons change changes ih =>
    rw [foldl_cons,ih]
    cases change <;> rfl

theorem observeOne_settle (g : ConnectionState) (m : Backend) : match settle (track g) m with
    | .ok t => track (observeOne g m) = t ∧ (observeOne g m).notMigratable = g.notMigratable
    | .error .marked => (observeOne g m).notMigratable
    | .error .lost => True := by
  rw [observeOne_eq]
  fun_cases settle (track g) m
  case case17 status changes controls rest ha hc hi =>
    replace ha : g.awaiting = .ready changes controls::rest := ha
    simp only [acknowledge,ha,if_neg hc,if_pos hi]
    exact ⟨track_applyChanges _ _,applyChanges_notMigratable _ _⟩
  case case18 status changes controls rest ha hc hi =>
    replace ha : g.awaiting = .ready changes controls::rest := ha
    simp only [acknowledge,ha,if_neg hc,if_neg hi]
    rfl
  case case14 hx =>
    simp only [acknowledge]
    split
    · next changes controls rest hd => exact (hx changes controls rest hd).elim
    all_goals exact ⟨rfl,rfl⟩
  all_goals simp_all [track,acknowledge,ConnectionState.commitCapture,ConnectionState.outOfStep,
    ConnectionState.markUnknowable,ConnectionState.restate]

theorem settle_ne_marked (h : t.awaiting = []) : settle t m ≠ .error .marked := by
  cases m <;> simp [settle,h]

theorem settle_nil (h : t.awaiting = []) (hs : settle t m = .ok t') : t' = t := by
  obtain ⟨prepared,channels,awaiting⟩ := t
  subst h
  cases m <;> cases hs <;> rfl

variable {l : List Backend}

theorem settleAll_nil (h : t.awaiting = []) :
    settleAll t l ≠ .error .marked ∧ ∀ t', settleAll t l = .ok t' → t' = t := by
  induction l generalizing t with
  | nil =>
    refine ⟨by simp [settleAll,pure,Except.pure],fun t' ht => ?_⟩
    cases ht
    rfl
  | cons m l ih =>
    rw [settleAll_cons]
    cases hs : settle t m with
    | error fate =>
      cases fate with
      | marked => exact absurd hs (settle_ne_marked h)
      | lost => exact ⟨by simp [bind,Except.bind],fun t' ht => by cases ht⟩
    | ok t₁ =>
      obtain rfl := settle_nil h hs
      exact ih h

/-- One more answer to await, or none. -/
def Tracked.push (t : Tracked) (a : Option Awaited) : Tracked :=
  {t with awaiting := t.awaiting++a.toList}

theorem foldl_commit_push (t : Tracked) (changes : List ReplayChange) (a : Option Awaited) :
    changes.foldl Tracked.commit (t.push a) = (changes.foldl Tracked.commit t).push a := by
  induction changes generalizing t with
  | nil => rfl
  | cons change changes ih =>
    have ho : (t.push a).commit change = (t.commit change).push a := by cases change <;> rfl
    rw [foldl_cons,foldl_cons,ho,ih]

theorem dropWhile_push (l : List Awaited) (a : Option Awaited) :
    (l++a.toList).dropWhile (!·.isReady) =
      if l.dropWhile (!·.isReady) = [] then a.toList.dropWhile (!·.isReady)
      else l.dropWhile (!·.isReady)++a.toList := by
  rw [dropWhile_append]
  simp only [List.isEmpty_iff]

/-- What has been awaited is settled before what is pushed; only an error reaches further, where it
finds nothing else to drop. -/
theorem settle_push (a : Option Awaited) (hs : settle t m = .ok t') :
    settle (t.push a) m = .ok (t'.push a) ∨ settle (t.push a) m = .error .marked ∨
      (t'.awaiting = [] ∧ a.all (!·.isReady) ∧ m = .errorResponse ∧
        settle (t.push a) m = .ok t') := by
  revert hs
  fun_cases settle t m <;> intro hs <;> cases hs
  case case14 hx =>
    simp only [settle,Tracked.push,dropWhile_push]
    cases hd : t.awaiting.dropWhile (!·.isReady) with
    | nil =>
      rcases a with _ | _ | _ | ⟨changes,controls⟩
      · exact .inl rfl
      · exact .inr (.inr ⟨rfl,rfl,trivial,rfl⟩)
      · exact .inr (.inr ⟨rfl,rfl,trivial,rfl⟩)
      · by_cases hc : changes = [] <;> simp [hc,Awaited.isReady]
    | cons y rest =>
      cases y with
      | ready changes controls => exact (hx changes controls rest hd).elim
      | parse _ | close _ => exact .inl (by simp)
  case case17 status changes controls rest ha hc hi =>
    rw [← foldl_commit_push]
    simp_all [settle,Tracked.push]
  all_goals simp_all [settle,Tracked.push,dropWhile_push]

theorem settle_push_marked (a : Option Awaited) (hs : settle t m = .error .marked) :
    settle (t.push a) m = .error .marked := by
  revert hs
  fun_cases settle t m <;> intro hs <;> cases hs <;> simp_all [settle,Tracked.push,dropWhile_push]

def dangling (error : Bool) (messages : List Backend) : Bool :=
  messages.foldl (fun error m => match m with
    | .errorResponse => true
    | .readyForQuery _ => false
    | .parseComplete | .closeComplete | .copyInResponse | .copyOutResponse | .copyBothResponse
    | .other => error) error

theorem dangling_mono {e e' : Bool} (h : e → e') (l : List Backend) :
    dangling e l → dangling e' l := by
  induction l generalizing e e' with
  | nil => exact h
  | cons m l ih =>
    cases m with
    | errorResponse => exact ih id
    | readyForQuery status => exact ih id
    | _ => exact ih h

theorem dangling_of_countP (h : l.countP isReadyForQuery = 0) : dangling true l := by
  induction l with
  | nil => rfl
  | cons m l ih =>
    cases m with
    | readyForQuery status => simp [isReadyForQuery] at h
    | _ => exact ih (by simpa [isReadyForQuery] using h)

theorem settleAll_push_marked (a : Option Awaited) (hs : settleAll t l = .error .marked) :
    settleAll (t.push a) l = .error .marked := by
  induction l generalizing t with
  | nil => cases hs
  | cons m l ih =>
    rw [settleAll_cons] at hs ⊢
    cases hm : settle t m with
    | error fate =>
      rw [hm] at hs
      cases hs
      rw [settle_push_marked a hm]
      rfl
    | ok t₁ =>
      rw [hm] at hs
      rcases settle_push a hm with hp | hp | ⟨hn,_⟩
      · rw [hp]
        exact ih hs
      · rw [hp]
        rfl
      · exact absurd hs (settleAll_nil hn).1

theorem foldl_commit_awaiting (t : Tracked) (changes : List ReplayChange) :
    (changes.foldl Tracked.commit t).awaiting = t.awaiting := by
  induction changes generalizing t with
  | nil => rfl
  | cons change changes ih =>
    rw [foldl_cons,ih]
    cases change <;> rfl

theorem settle_count (hs : settle t m = .ok t') :
    t'.awaiting.countP Awaited.isReady+(if isReadyForQuery m then 1 else 0) =
      t.awaiting.countP Awaited.isReady := by
  have hc := countP_dropWhile_isReady t.awaiting
  revert hs
  fun_cases settle t m <;> intro hs <;> cases hs
  all_goals simp_all [Awaited.isReady,isReadyForQuery,foldl_commit_awaiting,countP_cons]

theorem settleAll_count (hs : settleAll t l = .ok t') :
    t'.awaiting.countP Awaited.isReady+l.countP isReadyForQuery =
      t.awaiting.countP Awaited.isReady := by
  induction l generalizing t with
  | nil =>
    cases hs
    rfl
  | cons m l ih =>
    rw [settleAll_cons] at hs
    cases hm : settle t m with
    | error fate =>
      rw [hm] at hs
      cases hs
    | ok t₁ =>
      rw [hm] at hs
      have ho := settle_count hm
      have hr := ih hs
      rw [countP_cons]
      omega

theorem settleAll_push (a : Option Awaited) (hs : settleAll t l = .ok t') :
    settleAll (t.push a) l = .ok (t'.push a) ∨ settleAll (t.push a) l = .error .marked ∨
      (t'.awaiting = [] ∧ a.all (!·.isReady) ∧ dangling false l ∧
        settleAll (t.push a) l = .ok t') := by
  induction l generalizing t with
  | nil =>
    cases hs
    exact .inl rfl
  | cons m l ih =>
    rw [settleAll_cons] at hs ⊢
    cases hm : settle t m with
    | error fate =>
      rw [hm] at hs
      cases hs
    | ok t₁ =>
      rw [hm] at hs
      rcases settle_push a hm with hp | hp | ⟨hn,hr,rfl,hp⟩
      · rw [hp]
        refine (ih hs).imp_right (Or.imp_right fun ⟨hn,hr,hd,ht⟩ => ?_)
        exact ⟨hn,hr,dangling_mono (by simp) l hd,ht⟩
      · rw [hp]
        exact .inr (.inl rfl)
      · rw [hp]
        have hc := settleAll_count hs
        rw [hn] at hc
        have hd : dangling false (.errorResponse::l) := dangling_of_countP (Nat.eq_zero_of_add_eq_zero_left hc)
        obtain rfl := (settleAll_nil hn).2 t' hs
        exact .inr (.inr ⟨hn,hr,hd,hs⟩)

theorem settle_ne_lost (h : t.awaiting ≠ []) : settle t m ≠ .error .lost := by
  fun_cases settle t m <;> simp_all

theorem settleAll_ne_lost (h : l.countP isReadyForQuery < t.awaiting.countP Awaited.isReady) :
    settleAll t l ≠ .error .lost := by
  induction l generalizing t with
  | nil => exact fun hs => by cases hs
  | cons m l ih =>
    have hne : t.awaiting ≠ [] := by
      intro hn
      rw [hn] at h
      exact absurd h (Nat.not_lt_zero _)
    rw [settleAll_cons]
    cases hm : settle t m with
    | error fate =>
      cases fate with
      | marked => exact fun hs => by cases hs
      | lost => exact absurd hm (settle_ne_lost hne)
    | ok t₁ =>
      have ho := settle_count hm
      rw [countP_cons] at h
      exact ih (by omega)

end Settle

end Settlement
end PgBattery
