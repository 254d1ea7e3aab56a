import PgBattery.ConfFile
import PgBattery.ReplicationSlots
import PgBattery.Upsert

/-! `postgresql.auto.conf` and its two writers: the fence of every start and the standby's settings. The
file is edited line by line; PostgreSQL reads it by its own grammar. -/
namespace PgBattery
namespace AutoConf
open SqlReply ConfFile Upsert List

section Source

def stripCr (l : Text) : Text := if l.getLast? = some '\r' then l.dropLast else l

/-- `str::lines`: the piece after the last line break is a line only if something stands in it, and keeps
its carriage return. -/
def strLines (s : Text) : List Text :=
  (lines s).dropLast.map stripCr++(lines s).getLast?.toList.filter (· ≠ [])

def startsWithCi (s start : Text) : Bool := (s.take start.length).map Char.toLower = start.map Char.toLower

def namesKey (key line : Text) : Bool :=
  let trimmed := line.dropWhile whitespace
  startsWithCi trimmed key && ((trimmed.drop key.length).dropWhile whitespace).head? = some '='

def setting (key value : Text) : Text := key++" = ".toList++value

/-- The lines with the key set, or removed; `placed` says that the setting has been written. -/
def editLines (key : Text) (value : Option Text) : Bool → List Text → List Text
  | placed, [] =>
    match value, placed with
    | some v, false => [setting key v]
    | _, _ => []
  | placed, line::ls =>
    if !namesKey key line then line::editLines key value placed ls
    else match value, placed with
      | some v, false => setting key v::editLines key value true ls
      | _, _ => editLines key value placed ls

def withAutoConfSetting (existing key : Text) (value : Option Text) : Text :=
  let text := render (editLines key value false (strLines existing))
  if text ≠ [] then text++['\n'] else text

def fenceKey : Text := "default_transaction_read_only".toList

def withWritesFenced (existing : Text) : Text :=
  withAutoConfSetting existing fenceKey (some "'on'".toList)

structure SocketAddr where
  ip : Text
  port : U16
  ip_line : '\n' ∉ ip

structure SupervisorConfig where
  pgUser : Text
  nodeId : U64

def primaryConninfoFor (leaderAddr : SocketAddr) (cfg : SupervisorConfig) : Text :=
  "host=".toList++leaderAddr.ip++" port=".toList++Nat.toDigits 10 leaderAddr.port.val++" user=".toList
    ++cfg.pgUser++" application_name=pgbattery_node_".toList++Nat.toDigits 10 cfg.nodeId.val

def quoted (value : Text) : Text := '\'' ::value++['\'']

def computeStandbyAutoConf (existing : Text) (leaderAddr : SocketAddr) (cfg : SupervisorConfig) : Text :=
  let conninfo := quoted (primaryConninfoFor leaderAddr cfg)
  let slot := quoted (ReplicationSlots.slotName cfg.nodeId)
  let text := withAutoConfSetting existing "primary_conninfo".toList (some conninfo)
  let text := withAutoConfSetting text "primary_slot_name".toList (some slot)
  withAutoConfSetting text "synchronous_standby_names".toList none

end Source

variable {key l : Text} {ls : List Text}

section Keys

def inKey (c : Char) : Bool := !whitespace c && c ≠ '='

/-- The word a line starts with, up to a blank or an equals sign. -/
def keyOf (line : Text) : Text := (line.dropWhile whitespace).takeWhile inKey

def assigned (line : Text) : Bool :=
  (((line.dropWhile whitespace).dropWhile inKey).dropWhile whitespace).head? = some '='

def IsKey (key : Text) : Prop := ∀ c ∈ key.map Char.toLower, inKey c = true

theorem toLower_of_whitespace {c : Char} (h : whitespace c) : c.toLower = c := by
  unfold Char.toLower
  rw [dif_neg]
  rintro ⟨hl,hh⟩
  have hu : 65 ≤ c.toNat ∧ c.toNat ≤ 90 := ⟨hl,hh⟩
  simp only [whitespace,Bool.or_eq_true,Bool.and_eq_true,decide_eq_true_eq,mem_cons,
    not_mem_nil,or_false] at h
  omega

theorem inKey_of_toLower {c : Char} (h : inKey c.toLower) : inKey c := by
  by_contra hn
  have hs : c.toLower = c := by
    by_cases hb : whitespace c
    · exact toLower_of_whitespace hb
    · obtain rfl : c = '=' := by simpa [inKey,hb] using hn
      rfl
  exact hn (hs ▸ h)

theorem takeWhile_inKey_of_equals {s : Text} (h : (s.dropWhile whitespace).head? = some '=') :
    s.takeWhile inKey = [] := by
  cases s with
  | nil => rfl
  | cons c s =>
    by_cases hb : whitespace c
    · simp [inKey,hb]
    · obtain rfl : c = '=' := by simpa [hb] using h
      simp [inKey]

variable {line : Text}

theorem namesKey_iff (hk : IsKey key) :
    namesKey key line ↔ sameName (keyOf line) key ∧ assigned line := by
  simp only [namesKey,startsWithCi,sameName_iff,keyOf,assigned,Bool.and_eq_true,decide_eq_true_eq]
  generalize line.dropWhile whitespace = t
  constructor
  · rintro ⟨hn,he⟩
    have ha : ∀ c ∈ t.take key.length, inKey c := fun c hc =>
      inKey_of_toLower (hk _ (hn ▸ mem_map_of_mem hc))
    have hs := takeWhile_inKey_of_equals he
    have hd : (t.drop key.length).dropWhile inKey = t.drop key.length := by
      simpa [hs] using takeWhile_append_dropWhile (p := inKey) (l := t.drop key.length)
    rw [← take_append_drop key.length t,takeWhile_append_of_pos ha,
      dropWhile_append_of_pos ha,hs,hd,append_nil]
    exact ⟨hn,he⟩
  · rintro ⟨hn,he⟩
    have hl : key.length = (t.takeWhile inKey).length := by simpa using (congrArg List.length hn).symm
    have hsp := takeWhile_append_dropWhile (p := inKey) (l := t)
    generalize t.takeWhile inKey = a at *
    generalize t.dropWhile inKey = b at *
    subst hsp
    rw [hl,take_left,drop_left]
    exact ⟨hn,he⟩

theorem namesKey_eq (hk : IsKey key) (line : Text) :
    namesKey key line = (sameName (keyOf line) key && assigned line) := by
  rw [Bool.eq_iff_iff,namesKey_iff hk,Bool.and_eq_true]

theorem namesKey_unique {key' : Text} (hk : IsKey key) (hk' : IsKey key')
    (hne : sameName key key' = false) (h : namesKey key line) : namesKey key' line = false := by
  rw [Bool.eq_false_iff]
  intro h'
  have hn := sameName_iff.1 ((namesKey_iff hk).1 h).1
  have hn' := sameName_iff.1 ((namesKey_iff hk').1 h').1
  simp [sameName_iff.2 (hn.symm.trans hn')] at hne

theorem namesKey_append (hk : IsKey key) (line : Text) :
    namesKey key (line++['\r']) = namesKey key line := by
  have hr : whitespace '\r' := by decide
  have hs : inKey '\r' = false := by decide
  rw [namesKey_eq hk,namesKey_eq hk,keyOf,keyOf,assigned,assigned,dropWhile_append]
  split
  · next he =>
    rw [List.isEmpty_iff.1 he,dropWhile_cons_of_pos hr]
    rfl
  · rw [takeWhile_append_stop hs,dropWhile_append_stop hs,dropWhile_append]
    split
    · next he =>
      rw [List.isEmpty_iff.1 he,dropWhile_cons_of_pos hr]
      rfl
    · next hne =>
      rw [List.head?_append_of_ne_nil _ fun hn => hne (List.isEmpty_iff.2 hn)]

theorem stripCr_cases (l : Text) : stripCr l = l ∧ l.getLast? ≠ some '\r' ∨ l = stripCr l++['\r'] := by
  by_cases h : l.getLast? = some '\r'
  · refine .inr ?_
    rw [stripCr,if_pos h]
    exact (dropLast_append_getLast? '\r' h).symm
  · exact .inl ⟨if_neg h,h⟩

theorem namesKey_stripCr (hk : IsKey key) (line : Text) :
    namesKey key (stripCr line) = namesKey key line := by
  rcases stripCr_cases line with ⟨h,-⟩ | h
  · rw [h]
  · conv_rhs => rw [h]
    rw [namesKey_append hk]

theorem assignment_stripCr (line : Text) : assignment (stripCr line) = assignment line := by
  rcases stripCr_cases line with ⟨h,-⟩ | h
  · rw [h]
  · conv_rhs => rw [h]
    rw [assignment_append]

theorem namesKey_setting (hk : IsKey key) (hne : key ≠ []) (value : Text) :
    namesKey key (setting key value) := by
  have ha : ∀ c ∈ key, inKey c := fun c hc => inKey_of_toLower (hk _ (mem_map_of_mem hc))
  have hs : (setting key value).dropWhile whitespace = setting key value := by
    obtain ⟨c,rest,rfl⟩ := exists_cons_of_ne_nil hne
    have hc := ha c mem_cons_self
    exact dropWhile_cons_of_neg fun hb => by simp [inKey,hb] at hc
  rw [namesKey_iff hk,keyOf,assigned,hs,setting,append_assoc,
    takeWhile_append_of_pos ha,dropWhile_append_of_pos ha]
  exact ⟨sameName_iff.2 (congrArg _ (append_nil key)),rfl⟩

end Keys

section Lines

theorem lines_notMem (s : Text) : ∀ l ∈ lines s, '\n' ∉ l := by
  induction s with
  | nil => simp [lines]
  | cons c s ih =>
    rw [lines]
    split
    · next hn => exact absurd hn (lines_ne_nil s)
    · next l ls hl =>
      rw [hl] at ih
      split
      · exact forall_mem_cons.2 ⟨not_mem_nil,ih⟩
      · next hc =>
        obtain ⟨hf,hr⟩ := forall_mem_cons.1 ih
        refine forall_mem_cons.2 ⟨fun hm => ?_,hr⟩
        exact (mem_cons.1 hm).elim (fun h => hc h.symm) hf

theorem mem_of_mem_stripCr {c : Char} (h : c ∈ stripCr l) : c ∈ l := by
  rw [stripCr] at h
  split at h
  · exact mem_of_mem_dropLast h
  · exact h

theorem notMem_map_stripCr (h : ∀ l ∈ ls, '\n' ∉ l) : ∀ l ∈ ls.map stripCr, '\n' ∉ l := by
  intro l hl
  obtain ⟨l',hl',rfl⟩ := mem_map.1 hl
  exact fun hm => h l' hl' (mem_of_mem_stripCr hm)

theorem strLines_notMem (s : Text) : ∀ l ∈ strLines s, '\n' ∉ l := by
  intro l hl
  rcases mem_append.1 hl with hl | hl
  · obtain ⟨l',hl',rfl⟩ := mem_map.1 hl
    exact fun hm => lines_notMem s l' (mem_of_mem_dropLast hl') (mem_of_mem_stripCr hm)
  · have hla := (mem_filter.1 hl).1
    exact lines_notMem s l (List.mem_of_getLast? (Option.mem_toList.1 hla))

def written (ls : List Text) : Text := render ls++['\n']

theorem lines_written (hne : ls ≠ []) (h : ∀ l ∈ ls, '\n' ∉ l) : lines (written ls) = ls++[[]] := by
  rw [written,lines_append,lines_render hne h]
  rfl

theorem strLines_written (hne : ls ≠ []) (h : ∀ l ∈ ls, '\n' ∉ l) :
    strLines (written ls) = ls.map stripCr := by
  rw [strLines,lines_written hne h]
  simp

theorem assignments_eq (s : Text) : assignments s = (strLines s).filterMap assignment := by
  obtain ⟨init,last,hli⟩ := eq_nil_or_concat'  (lines s) |>.resolve_left (lines_ne_nil s)
  have hm : (init.map stripCr).filterMap assignment = init.filterMap assignment := by
    rw [filterMap_map]
    exact filterMap_congr fun l _ => assignment_stripCr l
  rw [assignments,strLines,hli,dropLast_concat,List.getLast?_concat,filterMap_append,
    filterMap_append,hm]
  by_cases hl : last = []
  · rw [hl]
    rfl
  · simp [hl]

end Lines

section Editing

theorem editLines_true (key : Text) (value : Option Text) (ls : List Text) :
    editLines key value true ls = ls.filter (!namesKey key ·) := by
  induction ls with
  | nil => cases value <;> rfl
  | cons l ls ih =>
    cases hl : namesKey key l with
    | true => cases value <;> simp [editLines,hl,ih]
    | false => simp [editLines,hl,ih]

theorem editLines_none (key : Text) (ls : List Text) :
    editLines key none false ls = ls.filter (!namesKey key ·) := by
  induction ls with
  | nil => rfl
  | cons l ls ih =>
    cases hl : namesKey key l <;> simp [editLines,hl,ih]

theorem editLines_some (key value : Text) (ls : List Text) :
    editLines key (some value) false ls = upsert (namesKey key) (setting key value) ls := by
  induction ls with
  | nil => rfl
  | cons l ls ih =>
    cases hl : namesKey key l with
    | true => simp [editLines,upsert,hl,editLines_true]
    | false => simp [editLines,upsert,hl,ih]

theorem render_ne_nil (hl : l ∈ ls) (hne : l ≠ []) : render ls ≠ [] := by
  rcases ls with _ | ⟨q,_ | ⟨r,ls⟩⟩
  · cases hl
  · obtain rfl := mem_singleton.1 hl
    simpa [render,List.intercalate] using hne
  · rw [render_cons_cons]
    simp

theorem setting_ne_nil (key value : Text) : setting key value ≠ [] := by
  simp [setting]

theorem withAutoConfSetting_some (existing key value : Text) :
    withAutoConfSetting existing key (some value) =
      written (upsert (namesKey key) (setting key value) (strLines existing)) := by
  rw [withAutoConfSetting,editLines_some]
  exact if_pos (render_ne_nil (mem_upsert_self _ _ _) (setting_ne_nil key value))

theorem withAutoConfSetting_none {existing : Text} (hl : l ∈ strLines existing)
    (hn : namesKey key l = false) (hne : l ≠ []) :
    withAutoConfSetting existing key none = written ((strLines existing).filter (!namesKey key ·)) := by
  rw [withAutoConfSetting,editLines_none]
  exact if_pos (render_ne_nil (mem_filter.2 ⟨hl,by rw [hn]; rfl⟩) hne)

structure Entry where
  key : Text
  value : Text
  isKey : IsKey key
  key_ne : key ≠ []
  line : '\n' ∉ setting key value
  closed : stripCr (setting key value) = setting key value

namespace Entry

def names (e : Entry) : Text → Bool := namesKey e.key
def text (e : Entry) : Text := setting e.key e.value
def put (e : Entry) : List Text → List Text := upsert e.names e.text

theorem names_text (e : Entry) : e.names e.text := namesKey_setting e.isKey e.key_ne e.value

theorem put_map_stripCr (e : Entry) (ls : List Text) : (e.put ls).map stripCr = e.put (ls.map stripCr) :=
  upsert_map (namesKey_stripCr e.isKey) e.closed ls

theorem put_notMem (e : Entry) (h : ∀ l ∈ ls, '\n' ∉ l) : ∀ l ∈ e.put ls, '\n' ∉ l := by
  intro l hl
  rcases eq_or_mem_of_mem_upsert hl with rfl | ⟨hm,-⟩
  · exact e.line
  · exact h l hm

theorem put_ne_nil (e : Entry) (ls : List Text) : e.put ls ≠ [] :=
  ne_nil_of_mem (mem_upsert_self _ _ _)

theorem names_other (e : Entry) (hk : IsKey key) (hne : sameName e.key key = false) :
    ∀ l, e.names l → namesKey key l = false := fun _ => namesKey_unique e.isKey hk hne

theorem filter_put_self (e : Entry) (ls : List Text) : (e.put ls).filter e.names = [e.text] :=
  filter_upsert_self e.names_text ls

theorem filter_put_other (e : Entry) (hk : IsKey key) (hne : sameName e.key key = false)
    (ls : List Text) : (e.put ls).filter (namesKey key) = ls.filter (namesKey key) :=
  filter_upsert_other (e.names_other hk hne) e.names_text ls

theorem strLines_put (e : Entry) (h : ∀ l ∈ ls, '\n' ∉ l) :
    strLines (written (e.put ls)) = e.put (ls.map stripCr) := by
  rw [strLines_written (e.put_ne_nil ls) (e.put_notMem h),e.put_map_stripCr]

end Entry
end Editing

section Writers

theorem stripCr_concat {c : Char} (hc : c ≠ '\r') (l : Text) : stripCr (l++[c]) = l++[c] := by
  refine if_neg ?_
  rw [List.getLast?_concat]
  exact fun heq => hc (Option.some.inj heq)

theorem newline_notMem_toDigits (n : ℕ) : '\n' ∉ Nat.toDigits 10 n := by
  intro hm
  have hd := ReplicationSlots.isDigit_of_mem_toDigits hm
  exact absurd hd (by decide)

def Entry.ofQuoted (key value : Text) (isKey : IsKey key) (key_ne : key ≠ []) (hkey : '\n' ∉ key)
    (hvalue : '\n' ∉ value) : Entry where
  key := key
  value := quoted value
  isKey := isKey
  key_ne := key_ne
  line := by
    simp [setting,quoted,hkey,hvalue]
  closed := by
    have hline : setting key (quoted value) = (key++" = ".toList++ '\'' ::value)++['\''] := by
      simp [setting,quoted]
    rw [hline]
    exact stripCr_concat (by decide) _

def fence : Entry :=
  .ofQuoted fenceKey "on".toList (List.all_eq_true.1 (by rfl)) (by decide) (by decide) (by decide)

theorem withWritesFenced_eq (text : Text) : withWritesFenced text = written (fence.put (strLines text)) :=
  withAutoConfSetting_some text fence.key fence.value

theorem newline_notMem_conninfo (leaderAddr : SocketAddr) {cfg : SupervisorConfig}
    (hcfg : '\n' ∉ cfg.pgUser) : '\n' ∉ primaryConninfoFor leaderAddr cfg := by
  have hh : '\n' ∉ "host=".toList := by decide
  have hp : '\n' ∉ " port=".toList := by decide
  have hus : '\n' ∉ " user=".toList := by decide
  have hn : '\n' ∉ " application_name=pgbattery_node_".toList := by decide
  have hd := newline_notMem_toDigits leaderAddr.port.val
  have hno := newline_notMem_toDigits cfg.nodeId.val
  have hip := not_mem_append hh leaderAddr.ip_line
  have hu := not_mem_append (not_mem_append hip hp) hd
  have hup := not_mem_append (not_mem_append hu hus) hcfg
  unfold primaryConninfoFor
  exact not_mem_append (not_mem_append hup hn) hno

variable (leaderAddr : SocketAddr) {cfg : SupervisorConfig} (hcfg : '\n' ∉ cfg.pgUser)

def conninfo : Entry :=
  .ofQuoted "primary_conninfo".toList (primaryConninfoFor leaderAddr cfg) (List.all_eq_true.1 (by rfl))
    (by decide) (by decide) (newline_notMem_conninfo leaderAddr hcfg)

def slot (cfg : SupervisorConfig) : Entry :=
  .ofQuoted "primary_slot_name".toList (ReplicationSlots.slotName cfg.nodeId)
    (List.all_eq_true.1 (by rfl)) (by decide) (by decide)
    (List.not_mem_append (by decide) (newline_notMem_toDigits _))

def syncKey : Text := "synchronous_standby_names".toList

theorem isKey_syncKey : IsKey syncKey := all_eq_true.1 (by rfl)

def settle (ls : List Text) : List Text :=
  ((slot cfg).put ((conninfo leaderAddr hcfg).put ls)).filter (!namesKey syncKey ·)

theorem filter_settle_sync (ls : List Text) :
    (settle leaderAddr hcfg ls).filter (namesKey syncKey) = [] := filter_filter_not _ _

theorem filter_settle_ne_sync (hk : IsKey key) (hne : sameName syncKey key = false) (ls : List Text)
    : (settle leaderAddr hcfg ls).filter (namesKey key) =
      ((slot cfg).put ((conninfo leaderAddr hcfg).put ls)).filter (namesKey key) :=
  filter_filter_disjoint (fun _ => namesKey_unique isKey_syncKey hk hne) _

theorem filter_settle_slot (ls : List Text) :
    (settle leaderAddr hcfg ls).filter (slot cfg).names = [(slot cfg).text] := by
  rw [Entry.names,filter_settle_ne_sync leaderAddr hcfg (slot cfg).isKey (by rfl)]
  exact (slot cfg).filter_put_self _

theorem filter_settle_conninfo (ls : List Text) :
    (settle leaderAddr hcfg ls).filter (conninfo leaderAddr hcfg).names =
      [(conninfo leaderAddr hcfg).text] := by
  have hk := (conninfo leaderAddr hcfg).isKey
  rw [Entry.names,filter_settle_ne_sync leaderAddr hcfg hk (by rfl),
    (slot cfg).filter_put_other hk (by rfl)]
  exact (conninfo leaderAddr hcfg).filter_put_self ls

theorem filter_settle_fence (ls : List Text) :
    (settle leaderAddr hcfg ls).filter fence.names = ls.filter fence.names := by
  rw [Entry.names,filter_settle_ne_sync leaderAddr hcfg fence.isKey (by rfl),
    (slot cfg).filter_put_other fence.isKey (by rfl),
    (conninfo leaderAddr hcfg).filter_put_other fence.isKey (by rfl)]

theorem settle_eq_self
    (hc : ls.filter (conninfo leaderAddr hcfg).names = [(conninfo leaderAddr hcfg).text])
    (hs : ls.filter (slot cfg).names = [(slot cfg).text]) (hsy : ls.filter (namesKey syncKey) = [])
    : settle leaderAddr hcfg ls = ls := by
  have h₁ : (conninfo leaderAddr hcfg).put ls = ls := upsert_eq_self hc
  have h₂ : (slot cfg).put ls = ls := upsert_eq_self hs
  rw [settle,h₁,h₂,filter_eq_self]
  intro l hl
  simpa using filter_eq_nil_iff.1 hsy l hl

theorem settle_settle (ls : List Text) :
    settle leaderAddr hcfg (settle leaderAddr hcfg ls) = settle leaderAddr hcfg ls :=
  settle_eq_self leaderAddr hcfg (filter_settle_conninfo leaderAddr hcfg ls)
    (filter_settle_slot leaderAddr hcfg ls) (filter_settle_sync leaderAddr hcfg ls)

theorem conninfo_mem_settle (ls : List Text) :
    (conninfo leaderAddr hcfg).text ∈ settle leaderAddr hcfg ls := by
  refine mem_of_mem_filter (p := (conninfo leaderAddr hcfg).names) ?_
  rw [filter_settle_conninfo]
  exact mem_singleton_self _

theorem settle_map_stripCr (ls : List Text) :
    (settle leaderAddr hcfg ls).map stripCr = settle leaderAddr hcfg (ls.map stripCr) := by
  rw [settle,settle,← Entry.put_map_stripCr,← Entry.put_map_stripCr,filter_map]
  simp only [Function.comp_def,namesKey_stripCr isKey_syncKey]

theorem settle_notMem (h : ∀ l ∈ ls, '\n' ∉ l) :
    ∀ l ∈ settle leaderAddr hcfg ls, '\n' ∉ l := fun l hl =>
  (slot cfg).put_notMem ((conninfo leaderAddr hcfg).put_notMem h) l (mem_filter.1 hl).1

theorem computeStandbyAutoConf_eq (text : Text) : computeStandbyAutoConf text leaderAddr cfg =
    written (settle leaderAddr hcfg (((strLines text).map stripCr).map stripCr)) := by
  have hl := strLines_notMem text
  have hs := notMem_map_stripCr hl
  have h₁ : strLines (withAutoConfSetting text (conninfo leaderAddr hcfg).key
      (some (conninfo leaderAddr hcfg).value)) =
        (conninfo leaderAddr hcfg).put ((strLines text).map stripCr) := by
    rw [withAutoConfSetting_some]
    exact (conninfo leaderAddr hcfg).strLines_put hl
  have h₂ : strLines (withAutoConfSetting (withAutoConfSetting text (conninfo leaderAddr hcfg).key
      (some (conninfo leaderAddr hcfg).value)) (slot cfg).key (some (slot cfg).value)) =
        (slot cfg).put ((conninfo leaderAddr hcfg).put (((strLines text).map stripCr).map stripCr)) := by
    have hp := (slot cfg).strLines_put ((conninfo leaderAddr hcfg).put_notMem hs)
    rw [(conninfo leaderAddr hcfg).put_map_stripCr] at hp
    rw [withAutoConfSetting_some,h₁]
    exact hp
  have hm := conninfo_mem_settle leaderAddr hcfg (((strLines text).map stripCr).map stripCr)
  obtain ⟨hp,hsy⟩ := mem_filter.1 hm
  rw [← h₂] at hp
  have h₃ := withAutoConfSetting_none hp (by simpa using hsy) (setting_ne_nil _ _)
  rw [h₂] at h₃
  exact h₃

theorem strLines_computeStandbyAutoConf (text : Text) :
    strLines (computeStandbyAutoConf text leaderAddr cfg) =
      settle leaderAddr hcfg ((((strLines text).map stripCr).map stripCr).map stripCr) := by
  have hl := notMem_map_stripCr (notMem_map_stripCr (strLines_notMem text))
  rw [computeStandbyAutoConf_eq leaderAddr hcfg,
    strLines_written (ne_nil_of_mem (conninfo_mem_settle leaderAddr hcfg _))
      (settle_notMem leaderAddr hcfg hl),settle_map_stripCr]

theorem strLines_withWritesFenced (text : Text) :
    strLines (withWritesFenced text) = fence.put ((strLines text).map stripCr) := by
  rw [withWritesFenced_eq]
  exact fence.strLines_put (strLines_notMem text)

end Writers

section Fence

/-- The fence is on in the last place that counts, and nothing else is touched. -/
def Fences (text : Text) : Prop :=
  (∃ value, effective (withWritesFenced text) fenceKey = some value ∧ parseBool value = some true) ∧
    ∀ name, sameName name fenceKey = false → effective (withWritesFenced text) name = effective text name

/-- Each writer leaves its own output alone, and the other's. -/
def Agree (leaderAddr : SocketAddr) (cfg : SupervisorConfig) (text : Text) : Prop :=
  withWritesFenced (withWritesFenced text) = withWritesFenced text ∧
    computeStandbyAutoConf (computeStandbyAutoConf text leaderAddr cfg) leaderAddr cfg =
      computeStandbyAutoConf text leaderAddr cfg ∧
    (computeStandbyAutoConf text leaderAddr cfg = text →
      computeStandbyAutoConf (withWritesFenced text) leaderAddr cfg = withWritesFenced text) ∧
    (withWritesFenced text = text →
      withWritesFenced (computeStandbyAutoConf text leaderAddr cfg) = computeStandbyAutoConf text leaderAddr cfg)

/-- PostgreSQL takes the line for what the editor takes it for: the fence's setting, unless it is on
anyway, is written with an equals sign, and such a line sets nothing else. -/
def ReadAlike (line : Text) : Prop :=
  ∀ a ∈ assignment line,
    (sameName a.1 fenceKey = true → namesKey fenceKey line = true ∨ parseBool a.2 = some true) ∧
      (namesKey fenceKey line = true → sameName a.1 fenceKey = true)

/-- The line does not end in a carriage return of its own; one of the fence's setting may, in two. -/
def EndsPlain (line : Text) : Prop :=
  if namesKey fenceKey line = true then stripCr (stripCr (stripCr line)) = stripCr (stripCr line)
  else stripCr line = line

instance instDecidableReadAlike (line : Text) : Decidable (ReadAlike line) :=
  inferInstanceAs (Decidable (∀ a ∈ assignment line, _ ∧ _))

instance instDecidableEndsPlain (line : Text) : Decidable (EndsPlain line) :=
  inferInstanceAs (Decidable (ite _ _ _))

theorem sameName_trans_false {a b c : Text} (hab : sameName a b) (hcb : sameName c b = false) :
    sameName a c = false := by
  rw [Bool.eq_false_iff]
  intro hac
  simp [sameName_iff.2 ((sameName_iff.1 hac).symm.trans (sameName_iff.1 hab))] at hcb

theorem assignment_fence : assignment fence.text = some (fenceKey,"on".toList) := by decide +kernel

theorem assignments_withWritesFenced (text : Text) :
    assignments (withWritesFenced text) = (fence.put (strLines text)).filterMap assignment := by
  rw [withWritesFenced_eq]
  exact assignments_of_lines (lines_written (fence.put_ne_nil _) (fence.put_notMem (strLines_notMem text)))

variable {text : Text}

theorem fence_effective (h : ∀ l ∈ strLines text, ReadAlike l) :
    ∃ value, effective (withWritesFenced text) fenceKey = some value ∧ parseBool value = some true := by
  rw [effective,assignments_withWritesFenced]
  refine exists_lastValue ⟨(fenceKey,"on".toList),?_,sameName_iff.2 rfl⟩ fun a ha hna => ?_
  · exact mem_filterMap.2 ⟨_,mem_upsert_self _ _ _,assignment_fence⟩
  · obtain ⟨l,hl,hass⟩ := mem_filterMap.1 ha
    rcases eq_or_mem_of_mem_upsert hl with rfl | ⟨hm,hno⟩
    · rw [assignment_fence] at hass
      cases hass
      decide
    · refine (((h l hm) a hass).1 hna).resolve_left fun hn => ?_
      exact Bool.false_ne_true (hno.symm.trans hn)

theorem others_effective (h : ∀ l ∈ strLines text, ReadAlike l) {name : Text}
    (hna : sameName name fenceKey = false) :
    effective (withWritesFenced text) name = effective text name := by
  have ho : ∀ a : Text × Text, sameName a.1 fenceKey →
      (some a).filter (fun a => sameName a.1 name) = none := fun a ha => by
    simp [sameName_trans_false ha hna]
  rw [effective,effective,assignments_withWritesFenced,assignments_eq,lastValue,lastValue,
    filter_filterMap,filter_filterMap,Entry.put,filterMap_upsert]
  · rw [assignment_fence]
    exact ho _ (sameName_iff.2 rfl)
  · intro l hl hn
    cases hass : assignment l with
    | none => rfl
    | some a => exact ho a (((h l hl) a hass).2 hn)

theorem fences_of_readAlike (h : ∀ l ∈ strLines text, ReadAlike l) : Fences text :=
  ⟨fence_effective h,fun _ hn => others_effective h hn⟩

section Agreement
variable (leaderAddr : SocketAddr) {cfg : SupervisorConfig} (hcfg : '\n' ∉ cfg.pgUser)

theorem put_put (e : Entry) (ls : List Text) : e.put (e.put ls) = e.put ls :=
  upsert_eq_self (e.filter_put_self ls)

theorem EndsPlain.stripCr_eq (h : EndsPlain l) (hn : fence.names l = false) : stripCr l = l := by
  rw [EndsPlain,if_neg] at h
  · exact h
  · rw [show fenceKey = fence.key from rfl,← Entry.names,hn]
    decide

theorem put_map_of_endsPlain (h : ∀ l ∈ ls, EndsPlain l) :
    fence.put (ls.map stripCr) = fence.put ls :=
  upsert_congr (namesKey_stripCr fence.isKey) fun l hl hn => (h l hl).stripCr_eq hn

theorem put_map_three_of_endsPlain (h : ∀ l ∈ ls, EndsPlain l) :
    fence.put (((ls.map stripCr).map stripCr).map stripCr) = fence.put ls := by
  rw [map_map,map_map]
  refine upsert_congr (fun l => ?_) fun l hl hn => ?_
  · simp only [Function.comp_apply,Entry.names,namesKey_stripCr fence.isKey]
  · simp only [Function.comp_apply,(h l hl).stripCr_eq hn]

theorem map_three_of_endsPlain (h : ∀ l ∈ ls, EndsPlain l) :
    ((ls.map stripCr).map stripCr).map stripCr = (ls.map stripCr).map stripCr := by
  simp only [map_map]
  refine map_congr_left fun l hl => ?_
  have he := h l hl
  rw [EndsPlain] at he
  split at he
  · exact he
  · simp only [Function.comp_apply,he]

theorem withWritesFenced_idem (h : ∀ l ∈ strLines text, EndsPlain l) :
    withWritesFenced (withWritesFenced text) = withWritesFenced text := by
  rw [withWritesFenced_eq,strLines_withWritesFenced,put_put,put_map_of_endsPlain h,withWritesFenced_eq]

include hcfg in
theorem computeStandbyAutoConf_idem (h : ∀ l ∈ strLines text, EndsPlain l) :
    computeStandbyAutoConf (computeStandbyAutoConf text leaderAddr cfg) leaderAddr cfg =
      computeStandbyAutoConf text leaderAddr cfg := by
  have ht := map_three_of_endsPlain h
  rw [computeStandbyAutoConf_eq leaderAddr hcfg,strLines_computeStandbyAutoConf leaderAddr hcfg,
    settle_map_stripCr,settle_map_stripCr,settle_settle,ht,ht,ht,
    ← computeStandbyAutoConf_eq leaderAddr hcfg]

include hcfg in
theorem standby_of_fenced (h : ∀ l ∈ strLines text, EndsPlain l)
    (hf : computeStandbyAutoConf text leaderAddr cfg = text) :
    computeStandbyAutoConf (withWritesFenced text) leaderAddr cfg = withWritesFenced text := by
  have hl := strLines_computeStandbyAutoConf leaderAddr hcfg text
  rw [hf] at hl
  have hs : settle leaderAddr hcfg (fence.put (strLines text)) = fence.put (strLines text) := by
    refine settle_eq_self leaderAddr hcfg ?_ ?_ ?_
    · rw [Entry.names,fence.filter_put_other (conninfo leaderAddr hcfg).isKey (by rfl),hl]
      exact filter_settle_conninfo leaderAddr hcfg _
    · rw [Entry.names,fence.filter_put_other (slot cfg).isKey (by rfl),hl]
      exact filter_settle_slot leaderAddr hcfg _
    · rw [fence.filter_put_other isKey_syncKey (by rfl),hl,filter_settle_sync]
  rw [computeStandbyAutoConf_eq leaderAddr hcfg,strLines_withWritesFenced,fence.put_map_stripCr,
    fence.put_map_stripCr,put_map_three_of_endsPlain h,hs,withWritesFenced_eq]

include hcfg in
theorem fenced_of_standby (h : ∀ l ∈ strLines text, EndsPlain l)
    (hfi : withWritesFenced text = text) :
    withWritesFenced (computeStandbyAutoConf text leaderAddr cfg) = computeStandbyAutoConf text leaderAddr cfg := by
  have hli := strLines_withWritesFenced text
  rw [hfi] at hli
  have hf : (strLines text).filter fence.names = [fence.text] := by
    rw [hli,fence.filter_put_self]
  -- the one line of the fence is as it was written, the others end plain
  have hp : (strLines text).map stripCr = strLines text := by
    refine map_congr_left (fun l hl => ?_) |>.trans (map_id _)
    by_cases hn : fence.names l
    · have hm := mem_filter.2 ⟨hl,hn⟩
      rw [hf,mem_singleton] at hm
      exact hm ▸ fence.closed
    · exact (h l hl).stripCr_eq (by simpa using hn)
  have hpu : fence.put (settle leaderAddr hcfg (strLines text)) = settle leaderAddr hcfg (strLines text) :=
    upsert_eq_self (by rw [filter_settle_fence,hf])
  rw [withWritesFenced_eq,strLines_computeStandbyAutoConf leaderAddr hcfg,hp,hp,hp,hpu,
    computeStandbyAutoConf_eq leaderAddr hcfg,hp,hp]

include hcfg in
theorem agree_of_endsPlain (h : ∀ l ∈ strLines text, EndsPlain l) : Agree leaderAddr cfg text :=
  ⟨withWritesFenced_idem h,computeStandbyAutoConf_idem leaderAddr hcfg h,
    standby_of_fenced leaderAddr hcfg h,fenced_of_standby leaderAddr hcfg h⟩

theorem strLines_single (hne : l ≠ []) (hl : '\n' ∉ l) : strLines l = [l] := by
  rw [strLines,lines_of_notMem hl]
  simp [hne]

theorem strLines_pair (hne : l ≠ []) (hl : '\n' ∉ l) :
    strLines (fence.text++ '\n' ::l) = [fence.text,l] := by
  rw [strLines,lines_append,lines_of_notMem hl,lines_of_notMem (show '\n' ∉ fence.text from fence.line)]
  simp [hne,show stripCr fence.text = fence.text from fence.closed]

theorem written_injective {ms : List Text} (hls : ls ≠ []) (hms : ms ≠ []) (hl : ∀ l ∈ ls, '\n' ∉ l)
    (hm : ∀ l ∈ ms, '\n' ∉ l) (h : written ls = written ms) : ls = ms := by
  have hli := congrArg lines h
  rw [lines_written hls hl,lines_written hms hm] at hli
  exact append_cancel_right hli

theorem length_stripCr_le (l : Text) : (stripCr l).length ≤ l.length := by
  rw [stripCr]
  split <;> simp

theorem stripCr_eq_of_length (h : l.length ≤ (stripCr l).length) : stripCr l = l := by
  rcases stripCr_cases l with ⟨heq,-⟩ | heq
  · exact heq
  · have := congrArg List.length heq
    simp at this
    omega

theorem stripCr_iterate_notMem (h : ∀ l ∈ ls, '\n' ∉ l) (n : ℕ) :
    ∀ l ∈ (List.map stripCr)^[n] ls, '\n' ∉ l := by
  induction n generalizing ls with
  | zero => exact h
  | succ n ih => exact ih (notMem_map_stripCr h)

include hcfg in
theorem endsPlain_of_agree (hne : l ≠ []) (hl : '\n' ∉ l) (h : Agree leaderAddr cfg l) :
    EndsPlain l := by
  have hs := strLines_single hne hl
  have hli : ∀ l' ∈ [l], '\n' ∉ l' := by simpa using hl
  rw [EndsPlain]
  split
  · next hn =>
    -- the standby's writer takes two carriage returns off when it writes and three when it reads
    have hi := h.2.1
    rw [computeStandbyAutoConf_eq leaderAddr hcfg,strLines_computeStandbyAutoConf leaderAddr hcfg,
      settle_map_stripCr,settle_map_stripCr,settle_settle,computeStandbyAutoConf_eq leaderAddr hcfg,
      hs] at hi
    have hso := fun ls => ne_nil_of_mem (conninfo_mem_settle leaderAddr hcfg ls)
    have hls := written_injective (hso _) (hso _)
      (settle_notMem leaderAddr hcfg (stripCr_iterate_notMem hli 5))
      (settle_notMem leaderAddr hcfg (stripCr_iterate_notMem hli 2)) hi
    have hf := congrArg (List.filter fence.names) hls
    have hn' : namesKey fence.key l := hn
    rw [filter_settle_fence,filter_settle_fence,Entry.names] at hf
    simp only [Function.iterate_succ,Function.comp_apply,Function.iterate_zero,id,map_cons,map_nil,
      filter_cons,namesKey_stripCr fence.isKey,filter_nil,hn',if_true] at hf
    have hfi := congrArg List.length (List.cons.inj hf).1
    have ht := length_stripCr_le (stripCr (stripCr (stripCr (stripCr l))))
    have htw := length_stripCr_le (stripCr (stripCr (stripCr l)))
    exact stripCr_eq_of_length (by omega)
  · next hno =>
    have hi := h.1
    rw [withWritesFenced_eq,strLines_withWritesFenced,put_put,withWritesFenced_eq,hs] at hi
    have hls := written_injective (fence.put_ne_nil _) (fence.put_ne_nil _)
      (fence.put_notMem (notMem_map_stripCr hli)) (fence.put_notMem hli) hi
    have hp : ∀ l', namesKey fenceKey l' = namesKey fenceKey l → fence.put [l'] = [l',fence.text] :=
      fun l' hl' => if_neg (by rw [Entry.names]; exact hl' ▸ hno)
    rw [map_cons,map_nil,hp _ (namesKey_stripCr fence.isKey l),hp l rfl] at hls
    exact (List.cons.inj hls).1

theorem readAlike_of_fences (hne : l ≠ []) (hl : '\n' ∉ l) (hal : Fences l)
    (haf : Fences (fence.text++ '\n' ::l)) : ReadAlike l := by
  intro a (ha : assignment l = some a)
  have hs : ∀ name, sameName name name := fun _ => sameName_iff.2 rfl
  constructor
  · intro hn
    by_contra hno
    obtain ⟨hna,hv⟩ := not_or.1 hno
    have hp : fence.put [fence.text,l] = [fence.text,l] := by
      refine upsert_eq_self ?_
      rw [filter_cons_of_pos fence.names_text,filter_cons_of_neg (show ¬fence.names l from hna)]
      rfl
    obtain ⟨value,he,hon⟩ := haf.1
    rw [effective,assignments_withWritesFenced,strLines_pair hne hl,hp] at he
    simp only [filterMap_cons_some assignment_fence,filterMap_cons_some ha,lastValue,
      filterMap_nil,filter_cons,hs,hn,if_true,filter_nil] at he
    cases he
    exact hv hon
  · intro hna
    by_contra hn
    rw [Bool.not_eq_true] at hn
    have ho := hal.2 a.1 hn
    have hp : fence.put [l] = [fence.text] := if_pos hna
    have hf : sameName fenceKey a.1 = false := by rw [sameName_comm,hn]
    rw [effective,effective,assignments_withWritesFenced,assignments_eq,strLines_single hne hl,hp] at ho
    simp only [filterMap_cons_some assignment_fence,filterMap_cons_some ha,lastValue,
      filterMap_nil,filter_cons,hs,hf,if_true,filter_nil] at ho
    cases ho

end Agreement

/-- The writers do what they are for on every text put together from the fence's own line and lines of the
given shapes exactly when PostgreSQL reads each of these as the editor does and none ends in a carriage
return. -/
theorem fenced_iff (leaderAddr : SocketAddr) {cfg : SupervisorConfig} (hcfg : '\n' ∉ cfg.pgUser)
    (shapes : Set Text) :
    (∀ text, (∀ l ∈ strLines text, l = fence.text ∨ l ∈ shapes) → Fences text ∧ Agree leaderAddr cfg text) ↔
      ∀ l ∈ shapes, '\n' ∉ l → ReadAlike l ∧ EndsPlain l := by
  constructor
  · intro h l hs hl
    rcases eq_or_ne l [] with rfl | hne
    · exact ⟨by simp [ReadAlike,assignment,skipBlank,isIdentifier,isQualified,splitOnce],rfl⟩
    · have hal := h l (by rw [strLines_single hne hl]; simpa using .inr hs)
      have haf := h (fence.text++ '\n' ::l) (by rw [strLines_pair hne hl]; simpa using .inr hs)
      exact ⟨readAlike_of_fences hne hl hal.1 haf.1,endsPlain_of_agree leaderAddr hcfg hne hl hal.2⟩
  · intro h text ht
    have ho : ReadAlike fence.text ∧ EndsPlain fence.text := by
      have hc : stripCr fence.text = fence.text := fence.closed
      refine ⟨fun a ha => ⟨fun _ => .inl fence.names_text,fun _ => ?_⟩,?_⟩
      · rw [assignment_fence] at ha
        cases ha
        exact sameName_iff.2 rfl
      · rw [EndsPlain,hc,hc]
        split <;> exact hc
    have hp : ∀ l ∈ strLines text, ReadAlike l ∧ EndsPlain l := fun l hl =>
      (ht l hl).elim (fun heq => heq ▸ ho) fun hs => h l hs (strLines_notMem text l hl)
    exact ⟨fences_of_readAlike fun l hl => (hp l hl).1,
      agree_of_endsPlain leaderAddr hcfg fun l hl => (hp l hl).2⟩

/-- A former primary's file, as `ALTER SYSTEM` leaves it. -/
def unfenced : Text :=
  ("# Do not edit this file manually!\ndefault_transaction_read_only = 'off'\n" ++
    "synchronous_standby_names = 'FIRST 1 (a, b)'\n").toList

def leader : SocketAddr := ⟨"172.28.0.12".toList,5434,by decide⟩
def postgres : SupervisorConfig := ⟨"postgres".toList,1⟩

theorem unfenced_fenced : '\n' ∉ postgres.pgUser ∧ Fences unfenced ∧ Agree leader postgres unfenced := by
  have hs : ∀ l ∈ strLines unfenced, ReadAlike l ∧ EndsPlain l := by decide +kernel
  refine ⟨by decide,?_⟩
  exact (fenced_iff leader (by decide) {l | l ∈ strLines unfenced}).2 (fun l hl _ => hs l hl)
    unfenced fun l hl => .inr hl

/-- A line without an equals sign is not seen, and being the last it counts. -/
def bareSetting : Text :=
  "default_transaction_read_only = 'off'\ndefault_transaction_read_only off\n".toList

def returned : Text := "work_mem = 4MB\r".toList

theorem fence_overridden :
    effective (withWritesFenced bareSetting) fenceKey = some "off".toList ∧
      parseBool "off".toList = some false ∧ ¬Fences bareSetting ∧
        withWritesFenced (withWritesFenced returned) ≠ withWritesFenced returned := by
  have ho : effective (withWritesFenced bareSetting) fenceKey = some "off".toList := by decide +kernel
  refine ⟨ho,by decide,?_,by decide +kernel⟩
  rintro ⟨⟨value,hv,hon⟩,-⟩
  cases ho.symm.trans hv
  cases hon

end Fence
end AutoConf
end PgBattery
