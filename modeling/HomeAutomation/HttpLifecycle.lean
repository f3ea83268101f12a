import HomeAutomation.Lib.History
import HomeAutomation.Lib.Runs
import Mathlib.Data.List.Induction
import Mathlib.Data.List.Nodup

/-!
# The lifecycle of libcurl (`getUrl.cpp`, `outlet.cpp`)

Every `HttpRequest` owns a curl easy handle, and an 8-bit count shared by all of them says when the
library is set up and taken down. A machine of objects and their calls keeps the log of what libcurl
is asked for. The log is balanced as long as no object goes on after `getHttps`, which has cleaned
the handle up already, no outlet is destroyed, which frees its request without the destructor, and
the count does not wrap.
-/

namespace HomeAutomation

/-- The options the code sets. -/
inductive CurlOption where
  | url
  | followLocation
  | writeData
  | writeFunction
  | verbose
  | sslVerifyPeer
  | sslVerifyHost
  | caInfo
  | caPath
  | postFields
  deriving DecidableEq, Repr

/-- The calls into libcurl; easy handles are numbered in the order they are made. -/
inductive CurlCall where
  | globalInit
  | globalCleanup
  | easyInit (handle : Nat)
  | setopt (handle : Nat) (option : CurlOption)
  | perform (handle : Nat)
  | cleanup (handle : Nat)
  deriving DecidableEq, Repr

/-- An `HttpRequest` that is alive, known by its handle; `owned` by an `OutletKankun` or not. -/
structure HttpObject where
  handle : Nat
  owned : Bool
  deriving DecidableEq, Repr

/-- The objects alive, the static count, and what libcurl was asked for so far. -/
structure CurlState where
  globalInit : BitVec 8
  alive : List HttpObject
  created : Nat
  log : List CurlCall

/-- What is done with objects. The request of an outlet is private, and the outlet only calls `get`. -/
inductive CurlOp where
  | construct (owned : Bool)
  | get (handle : Nat)
  | getHttps (handle : Nat)
  | setPostFields (handle : Nat)
  | destroy (o : HttpObject)
  deriving DecidableEq, Repr

/-- The calls of `HttpRequest::get`. -/
def getCalls (handle : Nat) : List CurlCall :=
  [.setopt handle .url, .setopt handle .followLocation, .setopt handle .writeData,
    .setopt handle .writeFunction, .perform handle]

/-- The calls of `HttpRequest::getHttps` up to the last, a cleanup. -/
def getHttpsCalls (handle : Nat) : List CurlCall :=
  [.setopt handle .verbose, .setopt handle .sslVerifyPeer, .setopt handle .sslVerifyHost,
    .setopt handle .url, .setopt handle .caInfo, .setopt handle .caPath,
    .setopt handle .followLocation, .setopt handle .writeData, .setopt handle .writeFunction,
    .setopt handle .postFields, .perform handle]

namespace CurlState

def boot : CurlState := ⟨0, [], 0, []⟩

/-- The constructor. -/
def construct (s : CurlState) (owned : Bool) : CurlState where
  globalInit := s.globalInit + 1
  alive := s.alive ++ [⟨s.created, owned⟩]
  created := s.created + 1
  log := (if s.globalInit = 0 then s.log ++ [.globalInit] else s.log) ++ [.easyInit s.created]

/-- The destructor. -/
def destruct (s : CurlState) (o : HttpObject) : CurlState where
  globalInit := s.globalInit - 1
  alive := s.alive.erase o
  created := s.created
  log :=
    if s.globalInit - 1 = 0 then s.log ++ [.cleanup o.handle] ++ [.globalCleanup]
    else s.log ++ [.cleanup o.handle]

/-- A step, if the object is there: a stand-alone one for what outlets do not call. The destructor of
an outlet gives the memory of its request back and nothing else. An `easy_init` that fails and a
failed transfer in `get` end the program in an assertion. -/
def step (s : CurlState) : CurlOp → Option CurlState
  | .construct owned => some (s.construct owned)
  | .get handle =>
    if handle ∈ s.alive.map HttpObject.handle then
      some { s with log := s.log ++ getCalls handle }
    else none
  | .getHttps handle =>
    if ⟨handle, false⟩ ∈ s.alive then
      some { s with log := s.log ++ getHttpsCalls handle ++ [.cleanup handle] }
    else none
  | .setPostFields handle =>
    if ⟨handle, false⟩ ∈ s.alive then
      some { s with log := s.log ++ [.setopt handle .postFields] }
    else none
  | .destroy o =>
    if o ∈ s.alive then
      if o.owned then some { s with alive := s.alive.erase o } else some (s.destruct o)
    else none

def run (s : CurlState) (ops : List CurlOp) : Option CurlState := ops.foldlM step s

end CurlState

/-! ## The laws -/

/-- The call is handed the handle. -/
def CurlCall.Uses (h : Nat) : CurlCall → Prop
  | .setopt handle _ => handle = h
  | .perform handle => handle = h
  | .cleanup handle => handle = h
  | _ => False

/-- Whether the library is initialised after the calls. -/
def libraryUp (log : List CurlCall) : Bool :=
  log.foldl (fun up c =>
    match c with
    | .globalInit => true
    | .globalCleanup => false
    | _ => up) false

/-- No handle is used after its cleanup. -/
def NotAfterCleanup (log : List CurlCall) : Prop :=
  History.AtEvery (fun past c => ∀ h, c.Uses h → .cleanup h ∉ past) log

/-- The library is initialised and cleaned up in turns. -/
def Alternating (log : List CurlCall) : Prop :=
  History.AtEvery (fun past c => (c = .globalInit → libraryUp past = false) ∧
    (c = .globalCleanup → libraryUp past = true)) log

/-- The lifecycle of libcurl so far. -/
structure CurlState.Balanced (s : CurlState) : Prop where
  once : ∀ h < s.created, h ∉ s.alive.map HttpObject.handle → s.log.count (.cleanup h) = 1
  after : NotAfterCleanup s.log
  alternating : Alternating s.log
  library : libraryUp s.log = true ↔ s.alive ≠ []

/-- The step does what the lifecycle allows for: no more than 256 objects, no outlet destroyed, and
nothing of an object after its `getHttps`. -/
def CurlState.Careful (s : CurlState) (past : List CurlOp) : CurlOp → Prop
  | .construct _ => s.alive.length ≠ 256
  | .get h => .getHttps h ∉ past
  | .getHttps h => .getHttps h ∉ past
  | .setPostFields h => .getHttps h ∉ past
  | .destroy o => o.owned = false ∧ .getHttps o.handle ∉ past

instance (s : CurlState) (past : List CurlOp) : (op : CurlOp) → Decidable (s.Careful past op)
  | .construct _ => inferInstanceAs (Decidable (_ ≠ _))
  | .get _ => inferInstanceAs (Decidable (_ ∉ past))
  | .getHttps _ => inferInstanceAs (Decidable (_ ∉ past))
  | .setPostFields _ => inferInstanceAs (Decidable (_ ∉ past))
  | .destroy _ => inferInstanceAs (Decidable (_ ∧ _))

/-! ## Logs -/

section
variable {log new : List CurlCall} {h : Nat}

@[simp] theorem libraryUp_init (log : List CurlCall) : libraryUp (log ++ [.globalInit]) = true := by
  simp [libraryUp]

@[simp] theorem libraryUp_cleanup (log : List CurlCall) :
    libraryUp (log ++ [.globalCleanup]) = false := by
  simp [libraryUp]

@[simp] theorem libraryUp_easyInit (log : List CurlCall) (h : Nat) :
    libraryUp (log ++ [.easyInit h]) = libraryUp log := by
  simp [libraryUp]

@[simp] theorem libraryUp_easyCleanup (log : List CurlCall) (h : Nat) :
    libraryUp (log ++ [.cleanup h]) = libraryUp log := by
  simp [libraryUp]

theorem notAfterCleanup_snoc {c : CurlCall} :
    NotAfterCleanup (log ++ [c]) ↔ NotAfterCleanup log ∧ ∀ h, c.Uses h → .cleanup h ∉ log :=
  History.atEvery_singleton

theorem alternating_snoc {c : CurlCall} :
    Alternating (log ++ [c]) ↔ Alternating log ∧ (c = .globalInit → libraryUp log = false) ∧
      (c = .globalCleanup → libraryUp log = true) :=
  History.atEvery_singleton

/-- A call that only works with the handle. -/
def CurlCall.Works (h : Nat) : CurlCall → Prop
  | .setopt handle _ => handle = h
  | .perform handle => handle = h
  | _ => False

theorem getCalls_works (h : Nat) : ∀ c ∈ getCalls h, c.Works h := by
  simp [getCalls, CurlCall.Works]

theorem getHttpsCalls_works (h : Nat) : ∀ c ∈ getHttpsCalls h, c.Works h := by
  simp [getHttpsCalls, CurlCall.Works]

/-- It uses no other handle, cleans nothing up and leaves the library as it is. -/
structure CurlCall.Harmless (h : Nat) (c : CurlCall) : Prop where
  uses : ∀ h', c.Uses h' → h' = h
  notInit : c ≠ .globalInit
  notCleanup : c ≠ .globalCleanup
  noHandle : ∀ h', c ≠ .cleanup h'
  library : ∀ log, libraryUp (log ++ [c]) = libraryUp log

theorem CurlCall.Works.harmless {c : CurlCall} (hc : c.Works h) : c.Harmless h := by
  cases c with
  | setopt handle option =>
    obtain rfl : handle = h := hc
    exact ⟨fun _ huse => huse.symm, by simp, by simp, by simp, by simp [libraryUp]⟩
  | perform handle =>
    obtain rfl : handle = h := hc
    exact ⟨fun _ huse => huse.symm, by simp, by simp, by simp, by simp [libraryUp]⟩
  | globalInit => exact absurd hc id
  | globalCleanup => exact absurd hc id
  | easyInit handle => exact absurd hc id
  | cleanup handle => exact absurd hc id

/-- Logs with as many cleanups of every handle hold the same ones. -/
theorem mem_cleanup_congr {log' : List CurlCall}
    (hcount : ∀ h, log'.count (.cleanup h) = log.count (.cleanup h)) (h : Nat) :
    .cleanup h ∈ log' ↔ .cleanup h ∈ log := by
  rw [← List.count_pos_iff, ← List.count_pos_iff, hcount]

/-- Working with a handle that is not cleaned up keeps a log in order. -/
theorem works_append (hopen : .cleanup h ∉ log) (hafter : NotAfterCleanup log)
    (halt : Alternating log) (hnew : ∀ c ∈ new, c.Works h) :
    NotAfterCleanup (log ++ new) ∧ Alternating (log ++ new) ∧
      libraryUp (log ++ new) = libraryUp log ∧
      (∀ h', (log ++ new).count (.cleanup h') = log.count (.cleanup h')) := by
  induction new generalizing log with
  | nil => simp [hafter, halt]
  | cons c new ih =>
    obtain ⟨hc, hrest⟩ := List.forall_mem_cons.mp hnew
    have hharmless := hc.harmless
    have hafter' : NotAfterCleanup (log ++ [c]) := by
      refine notAfterCleanup_snoc.mpr ⟨hafter, ?_⟩
      intro h' huse
      rw [hharmless.uses h' huse]
      exact hopen
    have halt' : Alternating (log ++ [c]) :=
      alternating_snoc.mpr ⟨halt, fun e => absurd e hharmless.notInit,
        fun e => absurd e hharmless.notCleanup⟩
    have hup := hharmless.library log
    have hcount : ∀ h', (log ++ [c]).count (.cleanup h') = log.count (.cleanup h') := by
      intro h'
      rw [List.count_append, List.count_singleton, if_neg (by simpa using hharmless.noHandle h'),
        Nat.add_zero]
    have hopen' : .cleanup h ∉ log ++ [c] := by
      rw [mem_cleanup_congr hcount]
      exact hopen
    obtain ⟨h1, h2, h3, h4⟩ := ih hopen' hafter' halt' hrest
    rw [List.append_cons]
    exact ⟨h1, h2, h3.trans hup, fun h' => (h4 h').trans (hcount h')⟩

end

/-! ## The invariant -/

namespace CurlState

/-- What holds after a run in which every step was careful. -/
structure Inv (past : List CurlOp) (s : CurlState) : Prop where
  count : s.globalInit = BitVec.ofNat 8 s.alive.length
  room : s.alive.length ≤ 256
  nodup : (s.alive.map HttpObject.handle).Nodup
  fresh : ∀ o ∈ s.alive, o.handle < s.created
  logged : ∀ h, .cleanup h ∈ s.log → h < s.created
  usable : ∀ o ∈ s.alive, .getHttps o.handle ∉ past → .cleanup o.handle ∉ s.log
  closed : ∀ h, .getHttps h ∈ past → .cleanup h ∈ s.log
  owner : ∀ o ∈ s.alive, o.owned = true → .getHttps o.handle ∉ past
  balanced : s.Balanced

theorem boot_inv : Inv [] boot := by
  refine ⟨rfl, by simp [boot], by simp [boot], by simp [boot], by simp [boot], by simp [boot],
    by simp, by simp, ⟨by simp [boot], ?_, ?_, by simp [boot, libraryUp]⟩⟩
  · exact History.atEvery_nil
  · exact History.atEvery_nil

section
variable {s s' : CurlState} {past : List CurlOp} {h : Nat}

theorem Inv.count_eq_zero_iff (hinv : Inv past s) (hroom : s.alive.length ≠ 256) :
    s.globalInit = 0 ↔ s.alive = [] := by
  have hle := hinv.room
  rw [hinv.count, ← BitVec.toNat_inj, BitVec.toNat_ofNat, ← List.length_eq_zero_iff]
  show s.alive.length % 2 ^ 8 = 0 ↔ _
  omega

/-- What the constructor has logged before it asks for a handle: the library is initialised. -/
theorem Inv.initialised (hinv : Inv past s) (hroom : s.alive.length ≠ 256) : ∃ log,
    (if s.globalInit = 0 then s.log ++ [.globalInit] else s.log) = log ∧ NotAfterCleanup log ∧
      Alternating log ∧ libraryUp log = true := by
  have hzero := hinv.count_eq_zero_iff hroom
  refine ⟨_, rfl, ?_⟩
  split_ifs with hfirst
  · have hdown : libraryUp s.log = false := by
      rw [← Bool.not_eq_true, hinv.balanced.library]
      simpa using hzero.mp hfirst
    refine ⟨notAfterCleanup_snoc.mpr ⟨hinv.balanced.after, fun h huse => absurd huse id⟩,
      alternating_snoc.mpr ⟨hinv.balanced.alternating, fun _ => hdown, by simp⟩,
      libraryUp_init _⟩
  · exact ⟨hinv.balanced.after, hinv.balanced.alternating,
      hinv.balanced.library.mpr (fun hnil => hfirst (hzero.mpr hnil))⟩

theorem construct_count (s : CurlState) (owned : Bool) (h : Nat) :
    (s.construct owned).log.count (.cleanup h) = s.log.count (.cleanup h) := by
  rw [CurlState.construct]
  split_ifs
  · simp
  · simp

theorem Inv.construct_balanced (hinv : Inv past s) (hroom : s.alive.length ≠ 256) (owned : Bool) :
    (s.construct owned).Balanced := by
  obtain ⟨log, hlog, hafter, halt, hup⟩ := hinv.initialised hroom
  refine ⟨?_, ?_, ?_, ?_⟩
  · intro h hlt hgone
    rw [construct_count]
    have hgone' : h ∉ s.alive.map HttpObject.handle ∧ h ≠ s.created := by
      simpa [CurlState.construct] using hgone
    have hlt' : h < s.created + 1 := hlt
    exact hinv.balanced.once h (by omega) hgone'.1
  · show NotAfterCleanup ((if s.globalInit = 0 then _ else _) ++ [_])
    rw [hlog]
    exact notAfterCleanup_snoc.mpr ⟨hafter, fun h huse => absurd huse id⟩
  · show Alternating ((if s.globalInit = 0 then _ else _) ++ [_])
    rw [hlog]
    exact alternating_snoc.mpr ⟨halt, by simp, by simp⟩
  · show libraryUp ((if s.globalInit = 0 then _ else _) ++ [_]) = true ↔ s.alive ++ [_] ≠ []
    rw [hlog, libraryUp_easyInit, hup]
    simp

/-- The constructor initialises the library when it is the first object. -/
theorem Inv.construct (hinv : Inv past s) (hroom : s.alive.length ≠ 256) (owned : Bool) :
    Inv (past ++ [.construct owned]) (s.construct owned) := by
  have hmem : ∀ h, .cleanup h ∈ (s.construct owned).log ↔ .cleanup h ∈ s.log :=
    mem_cleanup_congr (construct_count s owned)
  have hnew : ∀ o ∈ s.alive, o.handle ≠ s.created := fun o ho => Nat.ne_of_lt (hinv.fresh o ho)
  have hle := hinv.room
  refine ⟨?_, ?_, ?_, ?_, ?_, ?_, ?_, ?_, hinv.construct_balanced hroom owned⟩
  · show s.globalInit + 1 = BitVec.ofNat 8 (s.alive ++ [_]).length
    rw [hinv.count, List.length_append, List.length_singleton, BitVec.ofNat_add]
    rfl
  · show (s.alive ++ [_]).length ≤ 256
    rw [List.length_append, List.length_singleton]
    omega
  · show ((s.alive ++ [(⟨s.created, owned⟩ : HttpObject)]).map HttpObject.handle).Nodup
    rw [List.map_append, List.nodup_append]
    refine ⟨hinv.nodup, List.nodup_singleton _, ?_⟩
    intro a ha b hb hab
    obtain ⟨o, ho, rfl⟩ := List.mem_map.mp ha
    rw [List.map_singleton, List.mem_singleton] at hb
    exact hnew o ho (hab.trans hb)
  · intro o ho
    rcases List.mem_append.mp ho with ho | ho
    · exact Nat.lt_succ_of_lt (hinv.fresh o ho)
    · rw [List.mem_singleton.mp ho]
      exact Nat.lt_succ_self _
  · intro h hh
    exact Nat.lt_succ_of_lt (hinv.logged h ((hmem h).mp hh))
  · intro o ho hfirst
    rw [hmem]
    rcases List.mem_append.mp ho with ho | ho
    · exact hinv.usable o ho (fun hp => hfirst (List.mem_append_left _ hp))
    · rw [List.mem_singleton.mp ho]
      exact fun hh => Nat.lt_irrefl _ (hinv.logged _ hh)
  · intro h hh
    rw [hmem]
    exact hinv.closed h (by simpa using hh)
  · intro o ho howned hh
    have hh' : .getHttps o.handle ∈ past := by simpa using hh
    rcases List.mem_append.mp ho with ho | ho
    · exact hinv.owner o ho howned hh'
    · rw [List.mem_singleton.mp ho] at hh'
      exact Nat.lt_irrefl _ (hinv.logged _ (hinv.closed _ hh'))

theorem Inv.works (hinv : Inv past s) {op : CurlOp} (hop : ∀ h, op ≠ .getHttps h)
    (hopen : .cleanup h ∉ s.log) {new : List CurlCall} (hnew : ∀ c ∈ new, c.Works h) :
    Inv (past ++ [op]) { s with log := s.log ++ new } := by
  obtain ⟨hafter, halt, hup, hcount⟩ :=
    works_append hopen hinv.balanced.after hinv.balanced.alternating hnew
  have hmem : ∀ h, .cleanup h ∈ s.log ++ new ↔ .cleanup h ∈ s.log := mem_cleanup_congr hcount
  have hpast : ∀ h, .getHttps h ∈ past ++ [op] ↔ .getHttps h ∈ past := by
    intro h
    simp [(hop h).symm]
  refine ⟨hinv.count, hinv.room, hinv.nodup, hinv.fresh, ?_, ?_, ?_, ?_, ⟨?_, hafter, halt, ?_⟩⟩
  · intro h hh
    exact hinv.logged h ((hmem h).mp hh)
  · intro o ho hfirst
    exact fun hh => hinv.usable o ho (fun hp => hfirst ((hpast _).mpr hp)) ((hmem _).mp hh)
  · intro h hh
    exact (hmem h).mpr (hinv.closed h ((hpast h).mp hh))
  · intro o ho howned hh
    exact hinv.owner o ho howned ((hpast _).mp hh)
  · intro h hlt hgone
    exact (hcount h).trans (hinv.balanced.once h hlt hgone)
  · show libraryUp (s.log ++ new) = true ↔ s.alive ≠ []
    rw [hup]
    exact hinv.balanced.library

theorem Inv.getHttps (hinv : Inv past s) (halive : ⟨h, false⟩ ∈ s.alive)
    (hfirst : .getHttps h ∉ past) :
    Inv (past ++ [.getHttps h])
      { s with log := s.log ++ getHttpsCalls h ++ [.cleanup h] } := by
  have hopen := hinv.usable _ halive hfirst
  obtain ⟨hafter, halt, hup, hcount⟩ :=
    works_append hopen hinv.balanced.after hinv.balanced.alternating (getHttpsCalls_works h)
  have hmem : ∀ h', .cleanup h' ∈ s.log ++ getHttpsCalls h ↔ .cleanup h' ∈ s.log :=
    mem_cleanup_congr hcount
  have hmem' : ∀ h', .cleanup h' ∈ s.log ++ getHttpsCalls h ++ [.cleanup h] ↔
      .cleanup h' ∈ s.log ∨ h' = h := by
    intro h'
    rw [List.mem_append, hmem, List.mem_singleton, CurlCall.cleanup.injEq]
  refine ⟨hinv.count, hinv.room, hinv.nodup, hinv.fresh, ?_, ?_, ?_, ?_, ⟨?_, ?_, ?_, ?_⟩⟩
  · intro h' hh
    rcases (hmem' h').mp hh with hh | rfl
    · exact hinv.logged h' hh
    · exact hinv.fresh _ halive
  · intro o ho hother hh
    rw [List.mem_append, not_or, List.mem_singleton, CurlOp.getHttps.injEq] at hother
    exact ((hmem' _).mp hh).elim (hinv.usable o ho hother.1) hother.2
  · intro h' hh
    rw [List.mem_append, List.mem_singleton, CurlOp.getHttps.injEq] at hh
    exact (hmem' h').mpr (hh.imp_left (hinv.closed h'))
  · intro o ho howned hh
    rw [List.mem_append, List.mem_singleton, CurlOp.getHttps.injEq] at hh
    rcases hh with hh | hsame
    · exact hinv.owner o ho howned hh
    · have heq : o = ⟨h, false⟩ := List.inj_on_of_nodup_map hinv.nodup ho halive hsame
      rw [heq] at howned
      exact absurd howned (by simp)
  · intro h' hlt hgone
    have hne : h' ≠ h := by
      rintro rfl
      exact hgone (List.mem_map.mpr ⟨_, halive, rfl⟩)
    show (s.log ++ getHttpsCalls h ++ [CurlCall.cleanup h]).count (CurlCall.cleanup h') = 1
    rw [List.count_append, hcount, hinv.balanced.once h' hlt hgone]
    simp [hne.symm]
  · refine notAfterCleanup_snoc.mpr ⟨hafter, ?_⟩
    intro h' huse
    obtain rfl : h = h' := huse
    rwa [hmem]
  · exact alternating_snoc.mpr ⟨halt, by simp, by simp⟩
  · show libraryUp (s.log ++ getHttpsCalls h ++ [.cleanup h]) = true ↔ s.alive ≠ []
    rw [libraryUp_easyCleanup, hup]
    exact hinv.balanced.library

theorem Inv.mem_erase (hinv : Inv past s) {o : HttpObject} (halive : o ∈ s.alive) {o' : HttpObject}
    (ho' : o' ∈ s.alive.erase o) : o' ∈ s.alive ∧ o'.handle ≠ o.handle := by
  have hin := List.mem_of_mem_erase ho'
  refine ⟨hin, ?_⟩
  intro hsame
  have heq : o' = o := List.inj_on_of_nodup_map hinv.nodup hin halive hsame
  exact (List.Nodup.of_map _ hinv.nodup).not_mem_erase (heq ▸ ho')

theorem Inv.count_erase (hinv : Inv past s) {o : HttpObject} (halive : o ∈ s.alive) :
    s.globalInit - 1 = BitVec.ofNat 8 (s.alive.erase o).length := by
  have hlength := List.length_erase_of_mem halive
  have hpos := List.length_pos_of_mem halive
  have hroom := hinv.room
  rw [hinv.count, hlength, ← BitVec.toNat_inj, BitVec.toNat_sub, BitVec.toNat_ofNat,
    BitVec.toNat_ofNat]
  show (2 ^ 8 - 1 % 2 ^ 8 + _) % 2 ^ 8 = _
  omega

theorem Inv.count_erase_eq_zero_iff (hinv : Inv past s) {o : HttpObject} (halive : o ∈ s.alive) :
    s.globalInit - 1 = 0 ↔ s.alive.erase o = [] := by
  have hlength := List.length_erase_of_mem halive
  have hpos := List.length_pos_of_mem halive
  have hroom := hinv.room
  rw [hinv.count_erase halive, ← BitVec.toNat_inj, BitVec.toNat_ofNat, ← List.length_eq_zero_iff]
  show (s.alive.erase o).length % 2 ^ 8 = 0 ↔ _
  omega

theorem destruct_count (s : CurlState) (o : HttpObject) (h : Nat) :
    (s.destruct o).log.count (.cleanup h) =
      s.log.count (.cleanup h) + [CurlCall.cleanup o.handle].count (.cleanup h) := by
  rw [CurlState.destruct]
  split_ifs
  · rw [List.count_append, List.count_append,
      List.count_eq_zero.mpr (by simp : CurlCall.cleanup h ∉ [CurlCall.globalCleanup]),
      Nat.add_zero]
  · exact List.count_append

theorem mem_destruct (s : CurlState) (o : HttpObject) (h : Nat) :
    .cleanup h ∈ (s.destruct o).log ↔ .cleanup h ∈ s.log ∨ h = o.handle := by
  rw [← List.count_pos_iff, destruct_count, ← List.count_pos_iff, List.count_singleton]
  by_cases hh : h = o.handle
  · simp [hh]
  · simp [hh, Ne.symm hh]

theorem Inv.destruct_balanced (hinv : Inv past s) {o : HttpObject} (halive : o ∈ s.alive)
    (hfirst : .getHttps o.handle ∉ past) : (s.destruct o).Balanced := by
  have hopen := hinv.usable o halive hfirst
  have hup : libraryUp s.log = true := hinv.balanced.library.mpr (List.ne_nil_of_mem halive)
  have hzero := hinv.count_erase_eq_zero_iff halive
  refine ⟨?_, ?_, ?_, ?_⟩
  · intro h hlt hgone
    rw [destruct_count]
    by_cases hsame : h = o.handle
    · rw [hsame, List.count_eq_zero.mpr hopen]
      simp
    · have hgone' : h ∉ s.alive.map HttpObject.handle := by
        intro hh
        obtain ⟨o', ho', rfl⟩ := List.mem_map.mp hh
        have hne : o' ≠ o := fun e => hsame (e ▸ rfl)
        exact hgone (List.mem_map.mpr ⟨o', (List.mem_erase_of_ne hne).mpr ho', rfl⟩)
      rw [hinv.balanced.once h hlt hgone']
      simp [Ne.symm hsame]
  · have hafter : NotAfterCleanup (s.log ++ [.cleanup o.handle]) := by
      refine notAfterCleanup_snoc.mpr ⟨hinv.balanced.after, ?_⟩
      intro h huse
      obtain rfl : o.handle = h := huse
      exact hopen
    rw [CurlState.destruct]
    split_ifs
    · exact notAfterCleanup_snoc.mpr ⟨hafter, fun h huse => absurd huse id⟩
    · exact hafter
  · have halt : Alternating (s.log ++ [.cleanup o.handle]) :=
      alternating_snoc.mpr ⟨hinv.balanced.alternating, by simp, by simp⟩
    rw [CurlState.destruct]
    split_ifs
    · exact alternating_snoc.mpr ⟨halt, by simp, fun _ => by simpa using hup⟩
    · exact halt
  · show libraryUp (s.destruct o).log = true ↔ s.alive.erase o ≠ []
    rw [CurlState.destruct]
    split_ifs with hlast
    · rw [libraryUp_cleanup]
      simp [hzero.mp hlast]
    · simp [hup, mt hzero.mpr hlast]

/-- The destructor cleans the library up when it is the last object. -/
theorem Inv.destruct (hinv : Inv past s) {o : HttpObject} (halive : o ∈ s.alive)
    (hfirst : .getHttps o.handle ∉ past) :
    Inv (past ++ [.destroy o]) (s.destruct o) := by
  refine ⟨hinv.count_erase halive, ?_, ?_, ?_, ?_, ?_, ?_, ?_, hinv.destruct_balanced halive hfirst⟩
  · have hlength := List.length_erase_of_mem halive
    have hroom := hinv.room
    show (s.alive.erase o).length ≤ 256
    omega
  · exact hinv.nodup.sublist (List.erase_sublist.map _)
  · intro o' ho'
    exact hinv.fresh o' (hinv.mem_erase halive ho').1
  · intro h hh
    rcases (mem_destruct s o h).mp hh with hh | rfl
    · exact hinv.logged h hh
    · exact hinv.fresh o halive
  · intro o' ho' hfirst' hh
    obtain ⟨hin, hne⟩ := hinv.mem_erase halive ho'
    exact ((mem_destruct s o _).mp hh).elim
      (hinv.usable o' hin (fun hp => hfirst' (List.mem_append_left _ hp))) hne
  · intro h hh
    exact (mem_destruct s o h).mpr (Or.inl (hinv.closed h (by simpa using hh)))
  · intro o' ho' howned hh
    exact hinv.owner o' (hinv.mem_erase halive ho').1 howned (by simpa using hh)

theorem Inv.step (hinv : Inv past s) {op : CurlOp} (hcareful : s.Careful past op)
    (hstep : s.step op = some s') : Inv (past ++ [op]) s' := by
  cases op with
  | construct owned =>
    rw [CurlState.step, Option.some.injEq] at hstep
    exact hstep ▸ hinv.construct hcareful owned
  | get h =>
    rw [CurlState.step] at hstep
    split_ifs at hstep with halive
    obtain ⟨o, ho, rfl⟩ := List.mem_map.mp halive
    rw [← Option.some.inj hstep]
    exact hinv.works (by simp) (hinv.usable o ho hcareful) (getCalls_works o.handle)
  | getHttps h =>
    rw [CurlState.step] at hstep
    split_ifs at hstep with halive
    rw [← Option.some.inj hstep]
    exact hinv.getHttps halive hcareful
  | setPostFields h =>
    rw [CurlState.step] at hstep
    split_ifs at hstep with halive
    rw [← Option.some.inj hstep]
    exact hinv.works (by simp) (hinv.usable _ halive hcareful) (by simp [CurlCall.Works])
  | destroy o =>
    obtain ⟨howned, hfirst⟩ := hcareful
    simp only [CurlState.step, howned, Bool.false_eq_true, if_false] at hstep
    split_ifs at hstep with halive
    rw [← Option.some.inj hstep]
    exact hinv.destruct halive hfirst

/-! ## Steps that are not careful -/

/-- A call with a handle that is cleaned up breaks the lifecycle for good. -/
theorem not_after_append {log rest : List CurlCall} {c : CurlCall} (hdone : .cleanup h ∈ log)
    (huse : c.Uses h) : ¬ NotAfterCleanup (log ++ c :: rest) := by
  intro hafter
  exact hafter log c rest rfl h huse hdone

theorem Inv.careless (hinv : Inv past s) {op : CurlOp} (hcareless : ¬ s.Careful past op)
    (hstep : s.step op = some s') : ¬ s'.Balanced := by
  cases op with
  | construct owned =>
    -- the count has wrapped: the library is initialised again
    have hfull : s.alive.length = 256 := not_not.mp hcareless
    have hzero : s.globalInit = 0 := by rw [hinv.count, hfull]; rfl
    have hup : libraryUp s.log = true :=
      hinv.balanced.library.mpr (List.ne_nil_of_length_pos (by omega))
    rw [CurlState.step, Option.some.injEq] at hstep
    subst hstep
    intro hbalanced
    have halt : Alternating ((if s.globalInit = 0 then s.log ++ [.globalInit] else s.log) ++
      [.easyInit s.created]) := hbalanced.alternating
    rw [if_pos hzero, alternating_snoc, alternating_snoc] at halt
    rw [halt.1.2.1 rfl] at hup
    exact absurd hup (by simp)
  | get h =>
    rw [CurlState.step] at hstep
    split_ifs at hstep with halive
    rw [← Option.some.inj hstep]
    intro hbalanced
    have huse : (CurlCall.setopt h .url).Uses h := rfl
    exact not_after_append (hinv.closed h (not_not.mp hcareless)) huse hbalanced.after
  | getHttps h =>
    rw [CurlState.step] at hstep
    split_ifs at hstep with halive
    rw [← Option.some.inj hstep]
    intro hbalanced
    have hafter : NotAfterCleanup (s.log ++ getHttpsCalls h ++ [.cleanup h]) := hbalanced.after
    rw [List.append_assoc] at hafter
    have huse : (CurlCall.setopt h .verbose).Uses h := rfl
    exact not_after_append (hinv.closed h (not_not.mp hcareless)) huse hafter
  | setPostFields h =>
    rw [CurlState.step] at hstep
    split_ifs at hstep with halive
    rw [← Option.some.inj hstep]
    intro hbalanced
    have huse : (CurlCall.setopt h .postFields).Uses h := rfl
    exact not_after_append (hinv.closed h (not_not.mp hcareless)) huse hbalanced.after
  | destroy o =>
    rw [CurlState.step] at hstep
    split_ifs at hstep with halive howned
    · -- the handle is lost with the outlet
      rw [← Option.some.inj hstep]
      intro hbalanced
      have hgone : o.handle ∉ (s.alive.erase o).map HttpObject.handle := by
        intro hmem
        obtain ⟨o', ho', hsame⟩ := List.mem_map.mp hmem
        exact (hinv.mem_erase halive ho').2 hsame
      have hcount : s.log.count (.cleanup o.handle) = 1 :=
        hbalanced.once o.handle (hinv.fresh o halive) hgone
      have hopen := hinv.usable o halive (hinv.owner o halive howned)
      rw [List.count_eq_zero.mpr hopen] at hcount
      exact absurd hcount (by simp)
    · -- the handle is cleaned up twice
      rw [← Option.some.inj hstep]
      intro hbalanced
      have hclosed : .getHttps o.handle ∈ past := by
        by_contra hopen
        exact hcareless ⟨by simpa using howned, hopen⟩
      have huse : (CurlCall.cleanup o.handle).Uses o.handle := rfl
      have hafter : NotAfterCleanup (s.destruct o).log := hbalanced.after
      rw [CurlState.destruct] at hafter
      split_ifs at hafter
      · rw [List.append_assoc] at hafter
        exact not_after_append (hinv.closed _ hclosed) huse hafter
      · exact not_after_append (hinv.closed _ hclosed) huse hafter

end

/-! ## Runs -/

theorem run_snoc {s s' : CurlState} {ops : List CurlOp} {op : CurlOp}
    (h : s.run (ops ++ [op]) = some s') : ∃ t, s.run ops = some t ∧ t.step op = some s' := by
  rw [run, List.foldlM_append, Option.bind_eq_bind, Option.bind_eq_some_iff] at h
  obtain ⟨t, ht, hstep⟩ := h
  exact ⟨t, ht, by simpa using hstep⟩

/-- Every step of the run is careful. -/
def CarefulRun (ops : List CurlOp) : Prop :=
  ∀ past op later, ops = past ++ op :: later → ∀ s, boot.run past = some s → s.Careful past op

/-- Every state that the run reaches is balanced. -/
def BalancedRun (ops : List CurlOp) : Prop :=
  ∀ past later, ops = past ++ later → ∀ s, boot.run past = some s → s.Balanced

theorem CarefulRun.of_append {ops rest : List CurlOp} (h : CarefulRun (ops ++ rest)) :
    CarefulRun ops := by
  intro past op later hops
  exact h past op (later ++ rest) (by rw [hops, List.append_assoc, List.cons_append])

theorem CarefulRun.nil : CarefulRun [] := by
  intro past op later hops
  exact absurd hops (by simp)

theorem CarefulRun.snoc {ops : List CurlOp} {op : CurlOp} (h : CarefulRun ops)
    (hop : ∀ s, boot.run ops = some s → s.Careful ops op) : CarefulRun (ops ++ [op]) := by
  intro past op' later hops
  rcases List.eq_nil_or_concat later with rfl | ⟨later, op'', rfl⟩
  · obtain ⟨rfl, hlast⟩ := List.append_inj' hops rfl
    obtain rfl : op = op' := by simpa using hlast
    exact hop
  · rw [List.concat_eq_append, ← List.cons_append, ← List.append_assoc] at hops
    exact h past op' later (List.append_inj' hops rfl).1

theorem BalancedRun.of_append {ops rest : List CurlOp} (h : BalancedRun (ops ++ rest)) :
    BalancedRun ops := by
  intro past later hops
  exact h past (later ++ rest) (by rw [hops, List.append_assoc])

theorem run_inv {ops : List CurlOp} (h : CarefulRun ops) {s : CurlState}
    (hrun : boot.run ops = some s) : Inv ops s := by
  induction ops using List.reverseRecOn generalizing s with
  | nil =>
    have hboot : boot = s := Option.some.inj hrun
    exact hboot ▸ boot_inv
  | append_singleton ops op ih =>
    obtain ⟨t, ht, hstep⟩ := run_snoc hrun
    exact (ih h.of_append ht).step (h ops op [] rfl t ht) hstep

/-- **When the lifecycle of libcurl is balanced.** In a run of any objects, each handle is cleaned up
once by the time its owner is destroyed and not used afterwards, and the library is initialised and
cleaned up in turns, being initialised exactly while an object is alive, in every state reached if
and only if no step goes on after a `getHttps`, destroys an outlet, or makes an object beside 256. -/
theorem curl_balanced_iff {ops : List CurlOp} {s : CurlState} (hrun : boot.run ops = some s) :
    BalancedRun ops ↔ CarefulRun ops := by
  constructor
  · intro h
    induction ops using List.reverseRecOn generalizing s with
    | nil => exact CarefulRun.nil
    | append_singleton ops op ih =>
      obtain ⟨t, ht, hstep⟩ := run_snoc hrun
      have hcareful := ih ht h.of_append
      refine hcareful.snoc ?_
      intro t' ht'
      obtain rfl : t = t' := Option.some.inj (ht.symm.trans ht')
      by_contra hcareless
      exact (run_inv hcareful ht).careless hcareless hstep (h _ [] (by simp) s hrun)
  · intro h past later hops t ht
    exact (run_inv (CarefulRun.of_append (hops ▸ h)) ht).balanced

/-- An outlet, and a request that is used and destroyed. -/
theorem curl_balanced_request :
    BalancedRun [.construct true, .construct false, .get 0, .destroy ⟨1, false⟩] := by
  refine (curl_balanced_iff rfl).mpr ?_
  refine (((CarefulRun.nil.snoc ?_).snoc ?_).snoc ?_).snoc ?_
  all_goals
    intro s hs
    rw [← Option.some.inj hs]
    decide

/-- A request that was used for `getHttps` is cleaned up twice. -/
theorem curl_cleaned_twice :
    ¬ BalancedRun [.construct false, .getHttps 0, .destroy ⟨0, false⟩] := by
  intro h
  have hbalanced := h [.construct false, .getHttps 0, .destroy ⟨0, false⟩] [] rfl _ rfl
  have hlast := hbalanced.after
    ([.globalInit, .easyInit 0] ++ getHttpsCalls 0 ++ [.cleanup 0]) (.cleanup 0) [.globalCleanup]
    (by decide) 0 rfl
  exact hlast (by decide)

end CurlState

end HomeAutomation
