/-
  LimitlessOS.Auth.FailsClosed — when the login gate fails closed.

  A record that is there but cannot be read, or cannot be parsed, is for the gate the same as
  no record: it goes into the first run and makes a new account.

  Proved:
  - `Logged.step`: with a record that loads, a session is accepted, and the record rewritten, only
    for the default account or after the username and the password of the record were typed.
  - `setup_run_iff`: without one, an account is made if and only if the form of the first run is filled in.
  - `failsClosed_iff`: so the gate fails closed if and only if the record loads, or the form is not filled in.

  `failsClosed_fails`: a record that does not parse, and nobody at the keyboard.
-/
import LimitlessOS.Auth.Gate

namespace LimitlessOS.Auth

open Ramfs Gate List

variable (w : World)

/-! ## What the gate should do -/

/-- The record can be read, and parses as the account. -/
structure Loads (content : List UInt8) (a : Account) : Prop where
  read : w.readOk 0 = true
  fits : content.length ≤ recordBytes - 1
  parsed : parseRecord content (init none).account = (true, a)

/-- The username of the account and then its password were typed. -/
def TypedMatch (a : Account) (typed : List Typed) : Prop :=
  ∃ before first rest waits first' rest' after,
    typed = before ++ .line first rest :: (waits ++ .line first' rest' :: after) ∧ (∀ t ∈ waits, t = .timeout) ∧
      lineBytes passwordBytes first rest = cstr a.username ∧
      passwordMatches w a.passwordHash (lineBytes passwordBytes first' rest') = true

/-- A session was accepted, or the record rewritten. -/
def Gate.Opened (g : Gate) : Prop := g.phase = .accepted ∨ 0 < g.writes

/-- A session is accepted, or an existing record rewritten, only if the record loads, and is that of the default account
or has been matched. -/
def FailsClosed (granted : Bool) (content : List UInt8) (typed : List Typed) : Prop :=
  (run w granted (some content) typed).Opened →
    ∃ a, Loads w content a ∧ (isDefaultAccount w a.username a.passwordHash = true ∨ TypedMatch w a typed)

/-- The password that the first run takes. -/
def setupPassword : List Typed → Option (List UInt8)
  | [] | .denied :: _ => none
  | .line first rest :: _ => some (lineBytes passwordBytes first rest)
  | _ :: typed => setupPassword typed

/-- The password of the account that the first run makes. -/
def setupForm : List Typed → Option (List UInt8)
  | [] | .denied :: _ => none
  | .line .. :: typed => setupPassword typed
  | _ :: _ => some defaultPassword

/-- The form of the first run is filled in, and its password can be hashed, at once or when it is tried again. -/
def Registers (typed : List Typed) : Prop :=
  ∃ password, setupForm typed = some password ∧
    ((hashPassword w password (w.setting 0)).isSome = true ∨ (hashPassword w password (w.setting 1)).isSome = true)

/-! ## Finished gates -/

namespace Gate

variable {w} {g : Gate}

theorem run_finished (h : g.phase = .accepted ∨ g.phase = .refused) (typed : List Typed) : typed.foldl (step w) g = g := by
  induction typed with
  | nil => rfl
  | cons t typed ih =>
    have hstep : step w g t = g := by
      rcases h with h | h <;> simp only [step, h]
    rw [foldl_cons, hstep, ih]

theorem loadUserRecord_writes (g : Gate) : (g.loadUserRecord w).2.writes = g.writes := by
  unfold loadUserRecord
  split
  · rename_i heq
    exact (congrArg writes (Prod.mk.inj heq).2).symm
  · rename_i heq
    exact (congrArg writes (Prod.mk.inj heq).2).symm

/-- A password that can be hashed is written. -/
theorem saveUserRecord_writes (username : List UInt8) {password hash : List UInt8}
    (hhash : hashPassword w password (w.setting g.settings) = some hash) :
    (g.saveUserRecord w username password).2.writes = g.writes + 1 := by
  simp only [saveUserRecord, makeRecord, hhash, writeFile]
  cases w.writeOk g.writes with
  | false => rfl
  | true => exact loadUserRecord_writes _

theorem saveUserRecord_unhashed (username : List UInt8) {password : List UInt8}
    (hhash : hashPassword w password (w.setting g.settings) = none) :
    ∃ g', g.saveUserRecord w username password = (false, g') ∧ g'.writes = g.writes ∧ g'.settings = g.settings + 1 := by
  simp only [saveUserRecord, makeRecord, hhash]
  exact ⟨_, rfl, rfl, rfl⟩

theorem keepAccount_spec (g : Gate) (username password : List UInt8) :
    (g.keepAccount w username password).writes = g.writes ∧
      ((hashPassword w password (w.setting g.settings)).isSome ∧ (g.keepAccount w username password).phase = .accepted ∨
        (hashPassword w password (w.setting g.settings)).isSome = false ∧
          (g.keepAccount w username password).phase = .refused) := by
  unfold keepAccount makeRecord
  cases hashPassword w password (w.setting g.settings) with
  | none => exact ⟨rfl, .inr ⟨rfl, rfl⟩⟩
  | some hash => exact ⟨rfl, .inl ⟨rfl, rfl⟩⟩

/-- The first run ends here, and makes an account, or writes one, if and only if the password can be hashed. -/
theorem finishSetup_iff (hsettings : g.settings = 0) (hwrites : g.writes = 0) (username password : List UInt8) :
    let g' := g.finishSetup w username password
    (g'.phase = .accepted ∨ g'.phase = .refused) ∧
      (g'.Opened ↔ (hashPassword w password (w.setting 0)).isSome ∨ (hashPassword w password (w.setting 1)).isSome) := by
  dsimp only
  unfold finishSetup
  cases hhash : hashPassword w password (w.setting 0) with
  | some hash =>
    -- the account is written, whatever comes of it
    have hsaved := saveUserRecord_writes (w := w) (g := { g with account := { g.account with username := username } })
      username (hsettings ▸ hhash)
    generalize saveUserRecord w { g with account := { g.account with username := username } } username password = saved
      at hsaved ⊢
    obtain ⟨ok, g'⟩ := saved
    have hpos : 0 < g'.writes := by
      change g'.writes = g.writes + 1 at hsaved
      omega
    cases ok with
    | true => exact ⟨.inl rfl, iff_of_true (.inl rfl) (.inl rfl)⟩
    | false =>
      obtain ⟨hw, hkept⟩ := keepAccount_spec (w := w) g' username password
      exact ⟨hkept.imp And.right And.right, iff_of_true (.inr (hw ▸ hpos)) (.inl rfl)⟩
  | none =>
    -- nothing is written, and the next setting is tried
    obtain ⟨g', hsave, hwrites', hsettings'⟩ := saveUserRecord_unhashed (w := w)
      (g := { g with account := { g.account with username := username } }) username (hsettings ▸ hhash)
    rw [hsave]
    obtain ⟨hw, hkept⟩ := keepAccount_spec (w := w) g' username password
    have hfirst : g'.settings = 1 := hsettings'.trans (by rw [hsettings])
    rw [hfirst] at hkept
    refine ⟨hkept.imp And.right And.right, ?_⟩
    have hnone : ¬ 0 < (g'.keepAccount w username password).writes := by
      rw [hw, hwrites', hwrites]
      exact lt_irrefl 0
    rcases hkept with ⟨hsome, hphase⟩ | ⟨hfails, hphase⟩
    · exact iff_of_true (.inl hphase) (.inr hsome)
    · refine iff_of_false (fun h => ?_) (by simp [hfails])
      rcases h with h | h
      · exact absurd (hphase.symm.trans h) (by decide)
      · exact hnone h

/-! ## The first run -/

theorem not_opened (hphase : g.phase ≠ .accepted) (hwrites : g.writes = 0) : ¬ Opened g := fun h =>
  h.elim hphase fun hpos => by simp [hwrites] at hpos

theorem setupPassword_run_iff {username : List UInt8} (hphase : g.phase = .setupPassword username) (hsettings : g.settings = 0)
    (hwrites : g.writes = 0) (typed : List Typed) :
    Opened (typed.foldl (step w) g) ↔
      ∃ password, setupPassword typed = some password ∧
        ((hashPassword w password (w.setting 0)).isSome ∨ (hashPassword w password (w.setting 1)).isSome) := by
  induction typed with
  | nil => exact iff_of_false (not_opened (by simp [hphase]) hwrites) (by simp [setupPassword])
  | cons t typed ih =>
    rw [foldl_cons]
    cases t with
    | denied =>
      have hstep : step w g .denied = { g with phase := .refused } := by simp only [step, hphase]
      rw [hstep, run_finished (.inr rfl)]
      exact iff_of_false (not_opened (by simp) hwrites) (by simp [setupPassword])
    | line first rest =>
      have hstep : step w g (.line first rest) = g.finishSetup w username (lineBytes passwordBytes first rest) := by
        simp only [step, hphase]
      obtain ⟨hdone, hiff⟩ := finishSetup_iff (w := w) hsettings hwrites username (lineBytes passwordBytes first rest)
      rw [hstep, run_finished hdone]
      simpa [setupPassword] using hiff
    | empty | timeout => simpa only [step, hphase, setupPassword] using ih

theorem setup_run_iff (hphase : g.phase = .setup) (hsettings : g.settings = 0) (hwrites : g.writes = 0) (typed : List Typed) :
    Opened (typed.foldl (step w) g) ↔ Registers w typed := by
  cases typed with
  | nil => exact iff_of_false (not_opened (by simp [hphase]) hwrites) (by simp [Registers, setupForm])
  | cons t typed =>
    rw [foldl_cons]
    cases t with
    | denied =>
      have hstep : step w g .denied = { g with phase := .refused } := by simp only [step, hphase]
      rw [hstep, run_finished (.inr rfl)]
      exact iff_of_false (not_opened (by simp) hwrites) (by simp [Registers, setupForm])
    | line first rest =>
      have hstep : step w g (.line first rest) = { g with phase := .setupPassword (lineBytes usernameBytes first rest) } := by
        simp only [step, hphase]
      rw [hstep]
      exact setupPassword_run_iff (g := { g with phase := .setupPassword (lineBytes usernameBytes first rest) }) rfl
        hsettings hwrites typed
    | empty | timeout =>
      obtain ⟨hdone, hiff⟩ := finishSetup_iff (w := w) hsettings hwrites defaultUser defaultPassword
      simp only [step, hphase]
      rw [run_finished hdone]
      simpa [Registers, setupForm] using hiff

end Gate

/-! ## With a record -/

theorem TypedMatch.append {w : World} {a : Account} {typed : List Typed} (h : TypedMatch w a typed) (t : Typed) :
    TypedMatch w a (typed ++ [t]) := by
  obtain ⟨before, first, rest, waits, first', rest', after, rfl, h⟩ := h
  exact ⟨before, first, rest, waits, first', rest', after ++ [t], by simp, h⟩

/-- The gate with a record: what has been typed so far, and what that has led to. -/
inductive Logged (w : World) (a : Account) (typed : List Typed) (g : Gate) : Prop
  | waiting (hphase : g.phase = .login ∨ g.phase = .unknownUser ∨ g.phase = .refused) (haccount : g.account = a)
      (hwrites : g.writes = 0) (hdefault : g.defaultAccount = isDefaultAccount w a.username a.passwordHash)
  | named (hphase : g.phase = .password) (haccount : g.account = a) (hwrites : g.writes = 0)
      (hdefault : g.defaultAccount = isDefaultAccount w a.username a.passwordHash) (before : List Typed) (first : UInt8)
      (rest : List UInt8) (waits : List Typed) (htyped : typed = before ++ .line first rest :: waits)
      (hwaits : ∀ t ∈ waits, t = .timeout) (hname : lineBytes passwordBytes first rest = cstr a.username)
  | accepted (hphase : g.phase = .accepted)
      (hok : isDefaultAccount w a.username a.passwordHash = true ∨ TypedMatch w a typed)

namespace Logged

variable {w : World} {a : Account} {typed : List Typed} {g : Gate}

theorem step (h : Logged w a typed g) (t : Typed) : Logged w a (typed ++ [t]) (g.step w t) := by
  cases h with
  | waiting hphase haccount hwrites hdefault =>
    rcases hphase with hphase | hphase | hphase
    · cases t with
      | denied =>
        simp only [Gate.step, hphase]
        exact .waiting (.inr (.inr rfl)) haccount hwrites hdefault
      | line first rest =>
        simp only [Gate.step, hphase]
        split_ifs with hname
        · exact .named rfl haccount hwrites hdefault typed first rest [] rfl (by simp) (haccount ▸ hname)
        · exact .waiting (.inr (.inl rfl)) haccount hwrites hdefault
      | empty | timeout =>
        simp only [Gate.step, hphase]
        split_ifs with hd
        · exact .accepted rfl (.inl (hdefault ▸ hd))
        · exact .waiting (.inl hphase) haccount hwrites hdefault
    · cases t with
      | timeout =>
        simp only [Gate.step, hphase]
        exact .waiting (.inr (.inl hphase)) haccount hwrites hdefault
      | line | empty | denied =>
        simp only [Gate.step, hphase]
        exact .waiting (.inl rfl) haccount hwrites hdefault
    · simp only [Gate.step, hphase]
      exact .waiting (.inr (.inr hphase)) haccount hwrites hdefault
  | named hphase haccount hwrites hdefault before first rest waits htyped hwaits hname =>
    cases t with
    | timeout =>
      simp only [Gate.step, hphase]
      refine .named hphase haccount hwrites hdefault before first rest (waits ++ [.timeout]) ?_ (fun t ht => ?_) hname
      · simp [htyped]
      · rcases mem_append.1 ht with ht | ht
        · exact hwaits t ht
        · simpa using ht
    | line first' rest' =>
      simp only [Gate.step, hphase]
      split_ifs with hmatch
      · refine .accepted rfl (.inr ⟨before, first, rest, waits, first', rest', [], ?_, hwaits, hname, haccount ▸ hmatch⟩)
        simp [htyped]
      · exact .waiting (.inl rfl) haccount hwrites hdefault
    | empty | denied =>
      simp only [Gate.step, hphase]
      exact .waiting (.inl rfl) haccount hwrites hdefault
  | accepted hphase hok =>
    have hstep : g.step w t = g := by simp only [Gate.step, hphase]
    rw [hstep]
    exact .accepted hphase (hok.imp_right (·.append t))

theorem run (h : Logged w a [] g) (typed : List Typed) : Logged w a typed (typed.foldl (Gate.step w) g) := by
  induction typed using reverseRecOn with
  | nil => exact h
  | append_singleton typed t ih =>
    rw [foldl_append]
    exact ih.step t

theorem opened (h : Logged w a typed g) (ho : g.Opened) :
    isDefaultAccount w a.username a.passwordHash ∨ TypedMatch w a typed := by
  cases h with
  | waiting hphase haccount hwrites hdefault =>
    refine absurd ho (not_opened ?_ hwrites)
    rcases hphase with h | h | h <;> simp [h]
  | named hphase haccount hwrites hdefault => exact absurd ho (not_opened (by simp [hphase]) hwrites)
  | accepted hphase hok => exact hok

end Logged

/-! ## The result -/

/-- Where the gate begins. -/
theorem start_cases (content : List UInt8) :
    let g := start w true (some content)
    (∃ a, Loads w content a ∧ Logged w a [] g) ∨
      (¬ ∃ a, Loads w content a) ∧ g.phase = .setup ∧ g.settings = 0 ∧ g.writes = 0 := by
  have hinit : (init (some content)).account = (init none).account := rfl
  have hfile : ((init (some content)).file.filter fun c =>
      w.readOk (init (some content)).reads && decide (c.length ≤ recordBytes - 1)) =
      if w.readOk 0 && decide (content.length ≤ recordBytes - 1) then some content else none := Option.filter_some ..
  simp only [start, loadUserRecord, readFile, Bool.not_true, Bool.false_eq_true, if_false, hfile]
  cases hread : (w.readOk 0 && decide (content.length ≤ recordBytes - 1)) with
  | false =>
    refine .inr ⟨fun ⟨a, h⟩ => ?_, rfl, rfl, rfl⟩
    simp [h.read, h.fits] at hread
  | true =>
    simp only [if_true, hinit]
    rcases hparse : parseRecord content (Gate.init none).account with ⟨ok, account⟩
    simp only [Bool.and_eq_true, decide_eq_true_eq] at hread
    cases ok with
    | false =>
      refine .inr ⟨fun ⟨a, h⟩ => ?_, rfl, rfl, rfl⟩
      have := hparse.symm.trans h.parsed
      simp at this
    | true => exact .inl ⟨account, ⟨hread.1, hread.2, hparse⟩, .waiting (.inl rfl) rfl rfl rfl⟩

/-- The gate fails closed if and only if it does not run, the record loads, or the form of the first run is not filled in. -/
theorem failsClosed_iff (granted : Bool) (content : List UInt8) (typed : List Typed) :
    FailsClosed w granted content typed ↔ (granted = true → (∃ a, Loads w content a) ∨ ¬ Registers w typed) := by
  cases granted with
  | false =>
    refine iff_of_true (fun ho => ?_) (by simp)
    have hrun : run w false (some content) typed = init (some content) := run_finished (.inr rfl) typed
    rw [hrun] at ho
    exact absurd ho (not_opened (show Phase.refused ≠ .accepted by decide) rfl)
  | true =>
    rcases start_cases w content with ⟨a, hloads, hlogged⟩ | ⟨hno, hphase, hsettings, hwrites⟩
    · exact iff_of_true (fun ho => ⟨a, hloads, (hlogged.run typed).opened ho⟩) fun _ => .inl ⟨a, hloads⟩
    have hrun := setup_run_iff (w := w) hphase hsettings hwrites typed
    constructor
    · intro hclosed _
      refine .inr fun hr => hno ?_
      obtain ⟨a, hloads, -⟩ := hclosed (hrun.2 hr)
      exact ⟨a, hloads⟩
    · intro h ho
      exact ((h rfl).resolve_left hno (hrun.1 ho)).elim

/-- Storage that works, and a hash function that knows one text. -/
def plain : World :=
  { crypt := fun _ _ => some (ascii "$"), setting := fun _ => [], readOk := fun _ => true, writeOk := fun _ => true
    torn := fun _ f => f }

theorem failsClosed_fails : ¬ FailsClosed plain true (ascii "USER admin\n") [.timeout] := by
  intro h
  obtain ⟨a, hloads, -⟩ := h (.inl (by decide +kernel))
  have hbad : (parseRecord (ascii "USER admin\n") (init none).account).1 = false := by decide +kernel
  simp [hloads.parsed] at hbad

end LimitlessOS.Auth
