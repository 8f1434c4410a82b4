import Mathlib
import Ogurpchik.UnixPath
import Ogurpchik.Utf8

/-!
# Endpoints of Services

`Endpoint::for_service` turns the names of an application and a service into an endpoint: a pipe
name on Windows, and elsewhere a socket path below the runtime directory, or below a directory of
the user's own where there is none. The names come from the caller and are put together with
separators, so two services could meet at one endpoint, or a path could leave its directory, if a
name could hold what separates it from the next.

The module models the function with the environment it looks at, and paths as the bytes they are. A
path is read from behind: its last components are the names, whatever the directory in front of
them, so that the socket paths of two users or two environments are told apart by the same argument
as those of one.

## Main definitions

* `validateName`, `privateDir`, `runtimeDir`, `forService`: the code.
* `UnixEnv`: what it looks at.

## Main results

* `ValidName.isPlain_append`: a name with something behind it is one component of a path.
* `components_socketPath`: a socket path is two components below its base directory.
* `service_endpoints_apart`: **no two services share an endpoint**, and no name leaves the
  directory.
-/

namespace Ogurpchik

namespace Service

open UnixPath

/-! ### Names -/

/-- `EndpointError`, as far as `for_service` produces it: a name or a directory that is not fit. -/
inductive EndpointError
  | invalidServiceName
  | noRuntimeDirectory
  deriving DecidableEq, Repr

/-- What is attached to a report: a text, or `name: ` with the name as `{:?}` prints it. -/
inductive Note
  | name (name : String)
  | text (text : String)
  deriving DecidableEq, Repr

/-- A report over an `EndpointError`, with the one thing that is attached to it. -/
structure EndpointReport where
  context : EndpointError
  attached : Note
  deriving DecidableEq, Repr

/-- A character a name may have: ASCII letters and digits, a hyphen, an underscore. -/
def isNameChar (c : Char) : Bool := c.isAlphanum || c = '-' || c = '_'

/-- What a name has to be: not empty, of 64 bytes at most, and made of characters of names. -/
def ValidName (name : String) : Prop :=
  name ≠ "" ∧ (utf8 name).length ≤ 64 ∧ name.toList.all isNameChar

instance (name : String) : Decidable (ValidName name) :=
  inferInstanceAs (Decidable (_ ∧ _ ∧ _))

/-- `validate_name`: the error carries the name it refuses. -/
def validateName (name : String) : Except EndpointReport Unit :=
  if ValidName name then .ok () else .error ⟨.invalidServiceName, .name name⟩

/-! ### Directories -/

/-- What `symlink_metadata` tells of a directory, as far as it is looked at. -/
structure Metadata where
  isDir : Bool
  uid : UInt32
  mode : UInt32

/-- Why a directory was not created; that it exists is the one reason that is no error. -/
inductive CreateError
  | alreadyExists
  | other (text : String)

/-- What `for_service` looks at outside Windows: variables, the user, and what the file system
answers. Errors are given by their texts. -/
structure UnixEnv where
  /-- `XDG_RUNTIME_DIR`. -/
  xdgRuntimeDir : Option (List UInt8)
  /-- `std::env::temp_dir()`. -/
  tempDir : List UInt8
  /-- `getuid()`. -/
  uid : UInt32
  isDir : List UInt8 → Bool
  createDir : List UInt8 → Except CreateError Unit
  symlinkMetadata : List UInt8 → Except String Metadata
  createDirAll : List UInt8 → Except String Unit

/-- `Path::display`: bytes that are not UTF-8 are replaced, so two paths may look alike. -/
def display (path : List UInt8) : String := String.ofList (fromUtf8Lossy path)

/-- A directory that is not fit to be the own one of the user: the report names it and tells why. -/
def refuse (dir : List UInt8) (why : String) : Except EndpointReport Unit :=
  .error ⟨.noRuntimeDirectory, .text (display dir ++ ": " ++ why)⟩

/-- A number under `{:o}`, as the mode of a directory is printed. -/
def octal (n : ℕ) : String := String.ofList (Nat.toDigits 8 n)

/-- What `private_dir` makes of the metadata of a directory that is there: it has to be a directory
and no link to one, the user's, and closed to everyone else. -/
def inspected (dir : List UInt8) (uid : UInt32) :
    Except String Metadata → Except EndpointReport Unit
  | .error e => refuse dir ("cannot inspect: " ++ e)
  | .ok metadata =>
      if ¬ metadata.isDir then refuse dir "not a directory"
      else if metadata.uid ≠ uid then
        refuse dir ("owned by uid " ++ Nat.repr metadata.uid.toNat ++ ", not " ++
          Nat.repr uid.toNat)
      else if metadata.mode &&& 0o077 ≠ 0 then
        refuse dir ("mode " ++ octal (metadata.mode &&& 0o777).toNat ++ " lets others in")
      else .ok ()

/-- The second half of `private_dir`, behind the attempt to create the directory: the checks of
`inspected`, on what `symlink_metadata` says of it. -/
def inspectDir (env : UnixEnv) (dir : List UInt8) (uid : UInt32) : Except EndpointReport Unit :=
  inspected dir uid (env.symlinkMetadata dir)

/-- `private_dir`: the directory is created, and inspected also if it was there already, since then
anyone can have made it. -/
def privateDir (env : UnixEnv) (dir : List UInt8) (uid : UInt32) : Except EndpointReport Unit :=
  match env.createDir dir with
  | .error (.other e) => refuse dir ("cannot create: " ++ e)
  | .ok () | .error .alreadyExists => inspectDir env dir uid

/-- The fallback of a user: a directory for the application and the user in that for temporary
files, which anybody may write to. -/
def fallbackDir (env : UnixEnv) (app : String) : List UInt8 :=
  join env.tempDir (utf8 (app ++ "-" ++ Nat.repr env.uid.toNat))

/-- The base directory: that of the variable, if it is one, or else the fallback. -/
def baseDir (env : UnixEnv) (app : String) : Except EndpointReport (List UInt8) :=
  match env.xdgRuntimeDir.filter env.isDir with
  | some xdg => .ok xdg
  | none => do
      privateDir env (fallbackDir env app) env.uid
      return fallbackDir env app

/-- What `runtime_dir` makes of the answer to `create_dir_all`: the directory, or a report. -/
def made (dir : List UInt8) : Except String Unit → Except EndpointReport (List UInt8)
  | .error e =>
      .error ⟨.noRuntimeDirectory, .text ("cannot create " ++ display dir ++ ": " ++ e)⟩
  | .ok () => .ok dir

/-- `runtime_dir`: the own directory of the application in the base directory, made if it is
missing. -/
def runtimeDir (env : UnixEnv) (app : String) : Except EndpointReport (List UInt8) := do
  let base ← baseDir env app
  let dir := join base (utf8 app)
  made dir (env.createDirAll dir)

/-! ### Endpoints -/

/-- `Endpoint`, as far as `for_service` produces it: the path of a socket, or the name of a pipe. -/
inductive Endpoint
  | uds (path : List UInt8)
  | npipe (name : String)
  deriving DecidableEq, Repr

/-- The platform, with what the code looks at there: the branches of the source are chosen when it
is compiled. -/
inductive Platform
  | windows
  | unix (env : UnixEnv)

/-- `Endpoint::for_service`: both names have to be valid before anything is looked at or made. -/
def forService (platform : Platform) (app service : String) : Except EndpointReport Endpoint := do
  validateName app
  validateName service
  match platform with
  | .windows => return .npipe ("\\\\.\\pipe\\" ++ app ++ "." ++ service)
  | .unix env => return .uds (join (← runtimeDir env app) (utf8 (service ++ ".sock")))

example : forService .windows "myapp" "metrics" = .ok (.npipe "\\\\.\\pipe\\myapp.metrics") := by
  decide

/-- A user without a runtime directory, whose fallback is fit. -/
example :
    forService (.unix
      { xdgRuntimeDir := none, tempDir := utf8 "/tmp", uid := 1000, isDir := fun _ => false,
        createDir := fun _ => .ok (), symlinkMetadata := fun _ => .ok ⟨true, 1000, 0o40700⟩,
        createDirAll := fun _ => .ok () }) "myapp" "metrics" =
      .ok (.uds (utf8 "/tmp/myapp-1000/myapp/metrics.sock")) := by
  decide

/-! ### What a name is made of -/

/-- The characters of names are ASCII, and neither a slash nor a dot. -/
theorem toNat_of_isNameChar {c : Char} (h : isNameChar c) :
    c.val.toNat ≤ 122 ∧ c.val.toNat ≠ 47 ∧ c.val.toNat ≠ 46 := by
  rw [isNameChar, Bool.or_eq_true, Bool.or_eq_true, decide_eq_true_eq, decide_eq_true_eq] at h
  rcases h with (halphanum | rfl) | rfl
  · change (decide (65 ≤ c.val ∧ c.val ≤ 90) || decide (97 ≤ c.val) && decide (c.val ≤ 122) ||
      decide (48 ≤ c.val) && decide (c.val ≤ 57)) = true at halphanum
    simp only [Bool.or_eq_true, Bool.and_eq_true, decide_eq_true_eq, UInt32.le_iff_toNat_le,
      UInt32.reduceToNat] at halphanum
    omega
  · decide
  · decide

/-- A character of a name is one byte, and none of those that separate names. -/
theorem utf8EncodeChar_of_isNameChar {c : Char} (h : isNameChar c) :
    ∃ b : UInt8, String.utf8EncodeChar c = [b] ∧ b ≠ SEPARATOR ∧ b ≠ 0x2e := by
  obtain ⟨hle, hslash, hdot⟩ := toNat_of_isNameChar h
  have hbyte : (UInt8.ofNat c.val.toNat).toNat = c.val.toNat :=
    UInt8.toNat_ofNat_of_lt (hle.trans_lt (by decide))
  refine ⟨UInt8.ofNat c.val.toNat, ?_, ?_, ?_⟩
  · rw [String.utf8EncodeChar, if_pos (hle.trans (by decide))]
  · intro heq
    rw [heq] at hbyte
    exact hslash hbyte.symm
  · intro heq
    rw [heq] at hbyte
    exact hdot hbyte.symm

/-- What is made of characters of names has none of the bytes that separate names. -/
theorem notMem_utf8 {name : String} (h : name.toList.all isNameChar) :
    SEPARATOR ∉ utf8 name ∧ 0x2e ∉ utf8 name := by
  have hbytes : ∀ b ∈ utf8 name, b ≠ SEPARATOR ∧ b ≠ 0x2e := by
    intro b hb
    obtain ⟨c, hc, hbc⟩ := List.mem_flatMap.mp hb
    obtain ⟨b', hencode, hb'⟩ := utf8EncodeChar_of_isNameChar (List.all_eq_true.mp h c hc)
    rw [hencode, List.mem_singleton] at hbc
    rw [hbc]
    exact hb'
  exact ⟨fun hmem => (hbytes _ hmem).1 rfl, fun hmem => (hbytes _ hmem).2 rfl⟩

section ValidName

variable {name : String}

/-- A name has a byte at least, so it is a component of a path. -/
theorem ValidName.utf8_ne_nil (h : ValidName name) : utf8 name ≠ [] := fun hnil =>
  h.1 (utf8_inj hnil)

/-- A name has no dot, so the dot in the name of a pipe tells where the application ends. -/
theorem ValidName.dot_notMem (h : ValidName name) : '.' ∉ name.toList := fun hmem =>
  absurd (List.all_eq_true.mp h.2.2 '.' hmem) (by decide)

/-- A name with something behind it that does not separate is one component: it does not begin with
a dot. -/
theorem ValidName.isPlain_append (h : ValidName name) {rest : String}
    (hrest : SEPARATOR ∉ utf8 rest) : IsPlain (utf8 (name ++ rest)) := by
  obtain ⟨hseparator, hdot⟩ := notMem_utf8 h.2.2
  obtain ⟨b, bs, hbs⟩ := List.exists_cons_of_ne_nil h.utf8_ne_nil
  have hb : b ≠ 0x2e := by
    rintro rfl
    exact hdot (hbs ▸ List.mem_cons_self)
  have hutf8 : utf8 (name ++ rest) = b :: (bs ++ utf8 rest) := by
    rw [utf8_append, hbs, List.cons_append]
  refine ⟨?_, ?_, ?_, ?_⟩
  · rw [utf8_append, List.mem_append, not_or]
    exact ⟨hseparator, hrest⟩
  · rw [hutf8]
    exact List.cons_ne_nil _ _
  · rw [hutf8]
    exact fun heq => hb (List.cons.inj heq).1
  · rw [hutf8]
    exact fun heq => hb (List.cons.inj heq).1

/-- A name is a component of a path, and goes neither up nor down. -/
theorem ValidName.isPlain (h : ValidName name) : IsPlain (utf8 name) := by
  have hplain : IsPlain (utf8 (name ++ "")) := h.isPlain_append (by decide)
  rwa [String.append_empty] at hplain

/-- So is the file of a service. -/
theorem ValidName.isPlain_sock (h : ValidName name) : IsPlain (utf8 (name ++ ".sock")) :=
  h.isPlain_append (by decide)

end ValidName

/-- The digits of a uid are characters of names. -/
theorem isNameChar_of_mem_repr {n : ℕ} {c : Char} (hc : c ∈ (Nat.repr n).toList) :
    isNameChar c := by
  rw [Nat.repr_eq_ofList_toDigits, String.toList_ofList] at hc
  have hdigit : c.isDigit := Nat.isDigit_of_mem_toDigits (by decide) (by decide) hc
  rw [isNameChar, Char.isAlphanum, hdigit]
  simp

/-- The directory of a user is one component: the uid is digits. -/
theorem ValidName.isPlain_uid {app : String} (h : ValidName app) (n : ℕ) :
    IsPlain (utf8 (app ++ "-" ++ Nat.repr n)) := by
  have hall : ("-" ++ Nat.repr n).toList.all isNameChar := by
    rw [String.toList_append, List.all_append, Bool.and_eq_true]
    exact ⟨by decide, List.all_eq_true.mpr fun c hc => isNameChar_of_mem_repr hc⟩
  rw [String.append_assoc]
  exact h.isPlain_append (notMem_utf8 hall).1

/-! ### What an endpoint tells -/

section Accepted

variable {app service : String} {endpoint : Endpoint}

/-- `validate_name` accepts exactly the valid names; the check of the source is the conjunction in
`ValidName`. -/
theorem validateName_eq_ok_iff {name : String} : validateName name = .ok () ↔ ValidName name := by
  rw [validateName]
  split_ifs with hvalid
  · exact iff_of_true rfl hvalid
  · refine iff_of_false ?_ hvalid
    rintro ⟨⟩

/-- Both names were checked, on either platform, before there was an endpoint. -/
theorem validName_of_forService {platform : Platform}
    (h : forService platform app service = .ok endpoint) : ValidName app ∧ ValidName service := by
  unfold forService at h
  cases happ : validateName app with
  | error report =>
      rw [happ] at h
      cases h
  | ok _ =>
      cases hservice : validateName service with
      | error report =>
          rw [happ, hservice] at h
          cases h
      | ok _ => exact ⟨validateName_eq_ok_iff.mp happ, validateName_eq_ok_iff.mp hservice⟩

/-- A runtime directory is the base directory with the application's own in it. -/
theorem runtimeDir_eq_ok {env : UnixEnv} {dir : List UInt8} (h : runtimeDir env app = .ok dir) :
    ∃ base, baseDir env app = .ok base ∧ dir = join base (utf8 app) := by
  unfold runtimeDir at h
  cases hbase : baseDir env app with
  | error report =>
      rw [hbase] at h
      cases h
  | ok base =>
      rw [hbase] at h
      change made (join base (utf8 app)) (env.createDirAll (join base (utf8 app))) = .ok dir at h
      cases hmade : env.createDirAll (join base (utf8 app)) with
      | error e =>
          rw [hmade] at h
          cases h
      | ok _ =>
          rw [hmade] at h
          cases h
          exact ⟨base, rfl, rfl⟩

/-- On Windows the endpoint is the pipe of both names, separated by a dot. -/
theorem forService_windows (h : forService .windows app service = .ok endpoint) :
    endpoint = .npipe ("\\\\.\\pipe\\" ++ app ++ "." ++ service) := by
  obtain ⟨happ, hservice⟩ := validName_of_forService h
  rw [forService, validateName_eq_ok_iff.mpr happ, validateName_eq_ok_iff.mpr hservice] at h
  cases h
  rfl

/-- Elsewhere it is the socket of the service in the directory of the application, below a base that
was found fit. -/
theorem forService_unix {env : UnixEnv} (h : forService (.unix env) app service = .ok endpoint) :
    ∃ base, baseDir env app = .ok base ∧
      endpoint = .uds (join (join base (utf8 app)) (utf8 (service ++ ".sock"))) := by
  obtain ⟨happ, hservice⟩ := validName_of_forService h
  rw [forService, validateName_eq_ok_iff.mpr happ, validateName_eq_ok_iff.mpr hservice] at h
  cases hdir : runtimeDir env app with
  | error report =>
      simp only [hdir] at h
      cases h
  | ok dir =>
      obtain ⟨base, hbase, rfl⟩ := runtimeDir_eq_ok hdir
      simp only [hdir] at h
      cases h
      exact ⟨base, hbase, rfl⟩

end Accepted

/-- A socket path is two components below its base directory. -/
theorem components_socketPath {app service : String} (happ : ValidName app)
    (hservice : ValidName service) (base : List UInt8) :
    components (join (join base (utf8 app)) (utf8 (service ++ ".sock"))) =
      components base ++ [utf8 app, utf8 (service ++ ".sock")] := by
  rw [components_join hservice.isPlain_sock, components_join happ.isPlain, List.append_assoc]
  rfl

/-- The variable names no directory, and `for_service` takes the fallback: it is not set, or it is
wrong. -/
def UnixEnv.FallsBack (env : UnixEnv) : Prop := env.xdgRuntimeDir.filter env.isDir = none

/-- Where the variable names no directory, the base is that of the user in the directory for
temporary files. -/
theorem UnixEnv.FallsBack.baseDir_eq {env : UnixEnv} (h : env.FallsBack) {app : String}
    {base : List UInt8} (hbase : baseDir env app = .ok base) : base = fallbackDir env app := by
  rw [baseDir, h] at hbase
  cases hprivate : privateDir env (fallbackDir env app) env.uid with
  | error report =>
      simp only [hprivate] at hbase
      cases hbase
  | ok _ =>
      simp only [hprivate] at hbase
      cases hbase
      rfl

/-- The fallback is one component below the temporary directory. -/
theorem components_fallbackDir {app : String} (happ : ValidName app) (env : UnixEnv) :
    components (fallbackDir env app) =
      components env.tempDir ++ [utf8 (app ++ "-" ++ Nat.repr env.uid.toNat)] :=
  components_join (happ.isPlain_uid _) _

section Apart

variable {app service app' service' : String}

/-- The last two components of a socket path are the names, since neither has a separator in it. -/
theorem names_of_socketPath (happ : ValidName app) (hservice : ValidName service)
    (happ' : ValidName app') (hservice' : ValidName service') {base base' : List UInt8}
    (h : join (join base (utf8 app)) (utf8 (service ++ ".sock")) =
      join (join base' (utf8 app')) (utf8 (service' ++ ".sock"))) :
    components base = components base' ∧ app = app' ∧ service = service' := by
  have hcomponents := congrArg components h
  rw [components_socketPath happ hservice, components_socketPath happ' hservice'] at hcomponents
  obtain ⟨hbase, hnames⟩ := List.append_inj' hcomponents rfl
  obtain ⟨hname, hrest⟩ := List.cons.inj hnames
  have hsock := utf8_inj (List.cons.inj hrest).1
  exact ⟨hbase, utf8_inj hname, (String.append_left_inj ".sock").mp hsock⟩

/-- The dot of a pipe name is the only one behind the names' start, so it tells where the one ends
and the other begins. -/
theorem names_of_pipeName (happ : ValidName app) (hservice : ValidName service)
    (h : "\\\\.\\pipe\\" ++ app ++ "." ++ service = "\\\\.\\pipe\\" ++ app' ++ "." ++ service') :
    app = app' ∧ service = service' := by
  rw [String.append_assoc, String.append_assoc, String.append_assoc, String.append_assoc] at h
  have hlist := congrArg String.toList ((String.append_right_inj _).mp h)
  simp only [String.toList_append] at hlist
  change app.toList ++ '.' :: service.toList = app'.toList ++ '.' :: service'.toList at hlist
  obtain ⟨happ_eq, -, hservice_eq⟩ :=
    (List.append_cons_inj_of_notMem happ.dot_notMem hservice.dot_notMem).mp hlist
  exact ⟨String.toList_inj.mp happ_eq, String.toList_inj.mp hservice_eq⟩

/-- Whatever the environments, one endpoint is one service: two calls that return the same were
asked for the same. -/
theorem names_of_forService {platform platform' : Platform} {endpoint : Endpoint}
    (h : forService platform app service = .ok endpoint)
    (h' : forService platform' app' service' = .ok endpoint) : app = app' ∧ service = service' := by
  obtain ⟨happ, hservice⟩ := validName_of_forService h
  obtain ⟨happ', hservice'⟩ := validName_of_forService h'
  cases platform with
  | windows =>
      cases platform' with
      | windows =>
          have heq := (forService_windows h).symm.trans (forService_windows h')
          exact names_of_pipeName happ hservice (Endpoint.npipe.inj heq)
      | unix env' =>
          obtain ⟨base', -, hpath'⟩ := forService_unix h'
          cases (forService_windows h).symm.trans hpath'
  | unix env =>
      obtain ⟨base, -, hpath⟩ := forService_unix h
      cases platform' with
      | windows => cases hpath.symm.trans (forService_windows h')
      | unix env' =>
          obtain ⟨base', -, hpath'⟩ := forService_unix h'
          have heq := Endpoint.uds.inj (hpath.symm.trans hpath')
          exact (names_of_socketPath happ hservice happ' hservice' heq).2

/-- Below the fallback, the component before the names holds the uid, behind an application that is
known from the names. -/
theorem uid_of_forService {env env' : UnixEnv} {endpoint : Endpoint} (hfallback : env.FallsBack)
    (hfallback' : env'.FallsBack) (h : forService (.unix env) app service = .ok endpoint)
    (h' : forService (.unix env') app' service' = .ok endpoint) : env.uid = env'.uid := by
  obtain ⟨happ, hservice⟩ := validName_of_forService h
  obtain ⟨happ', hservice'⟩ := validName_of_forService h'
  obtain ⟨base, hbase, hpath⟩ := forService_unix h
  obtain ⟨base', hbase', hpath'⟩ := forService_unix h'
  have heq := Endpoint.uds.inj (hpath.symm.trans hpath')
  obtain ⟨hcomponents, rfl, -⟩ := names_of_socketPath happ hservice happ' hservice' heq
  rw [hfallback.baseDir_eq hbase, hfallback'.baseDir_eq hbase', components_fallbackDir happ,
    components_fallbackDir happ] at hcomponents
  have hdir := (List.cons.inj (List.append_inj' hcomponents rfl).2).1
  have hrepr := (String.append_right_inj _).mp (utf8_inj hdir)
  exact UInt32.toNat_inj.mp (Nat.repr_injective hrepr)

end Apart

/-- **No two services share an endpoint, and no name leaves the directory.** An endpoint that
`for_service` returned tells the names it was asked for, in whatever environments. In the fallback
it tells the user as well. A socket path is the base directory with two components behind it, the
application and the service with `.sock`, and neither is a way out. -/
theorem service_endpoints_apart :
    (∀ (platform platform' : Platform) (app service app' service' : String) (endpoint : Endpoint),
      forService platform app service = .ok endpoint →
        forService platform' app' service' = .ok endpoint → app = app' ∧ service = service') ∧
    (∀ (env env' : UnixEnv) (app service app' service' : String) (endpoint : Endpoint),
      env.FallsBack → env'.FallsBack →
        forService (.unix env) app service = .ok endpoint →
          forService (.unix env') app' service' = .ok endpoint → env.uid = env'.uid) ∧
    (∀ (app service : String) (endpoint : Endpoint),
      forService .windows app service = .ok endpoint →
        endpoint = .npipe ("\\\\.\\pipe\\" ++ app ++ "." ++ service)) ∧
    ∀ (env : UnixEnv) (app service : String) (endpoint : Endpoint),
      forService (.unix env) app service = .ok endpoint →
        ∃ base path, baseDir env app = .ok base ∧ endpoint = .uds path ∧ base <+: path ∧
          components path = components base ++ [utf8 app, utf8 (service ++ ".sock")] ∧
          IsPlain (utf8 app) ∧ IsPlain (utf8 (service ++ ".sock")) ∧
          (env.FallsBack → components base =
            components env.tempDir ++ [utf8 (app ++ "-" ++ Nat.repr env.uid.toNat)]) := by
  refine ⟨fun _ _ _ _ _ _ _ h h' => names_of_forService h h',
    fun _ _ _ _ _ _ _ hfallback hfallback' h h' => uid_of_forService hfallback hfallback' h h',
    fun _ _ _ h => forService_windows h, ?_⟩
  intro env app service endpoint h
  obtain ⟨happ, hservice⟩ := validName_of_forService h
  obtain ⟨base, hbase, hpath⟩ := forService_unix h
  have hfront := (isPrefix_join happ.isPlain base).trans (isPrefix_join hservice.isPlain_sock _)
  refine ⟨base, _, hbase, hpath, hfront, components_socketPath happ hservice base, happ.isPlain,
    hservice.isPlain_sock, ?_⟩
  intro hfallback
  rw [hfallback.baseDir_eq hbase, components_fallbackDir happ]

end Service

end Ogurpchik
