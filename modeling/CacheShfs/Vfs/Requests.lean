import CacheShfs.Vfs.Isolation

/-!
# What a mount asks of its remote

`MayAsk` says which calls a mount can send in a state: calls about the paths of its nodes, their
children and its open handles, and calls that change the remote only where the mount is writable.
`asked_exec` is the lemma for one call of the mount.  Over a run it confines the mount to its root,
whatever names the adapter passes in, the remote lists or the index on disk holds
(`remote_paths_confined`).
-/

namespace CacheShfs

open Machine

/-- The paths that a call to the remote names. -/
def RemoteCall.paths : RemoteCall → List RemotePath
  | .rename src dst _ => [src, dst]
  | call => [call.path]

/-- The calls that can change the remote. -/
def RemoteCall.Mutates : RemoteCall → Prop
  | .stat _ _ | .readDir _ _ | .read _ _ _ _ => False
  | _ => True

/-- The root as it was configured, or without its trailing slashes and with one or more path
components after it. -/
def Confined (root key : Str) : Prop :=
  key = root ∨ ∃ components : List Str, components ≠ [] ∧ (∀ c ∈ components, ValidComponent c) ∧
    key = trimEndSlashes root ++ components.flatMap fun c => '/' :: c

lemma Descends.confined {root key : Str} (h : Descends root key) : Confined root key := by
  induction h with
  | root => exact .inl rfl
  | @child p name hp hname ih =>
      have hroot : Confined p (childKey p name) :=
        .inr ⟨[name], by simp, by simpa using hname, by simp [childKey]⟩
      rcases hp.underRoot with rfl | ⟨htrim, -⟩
      · exact hroot
      · rcases ih with rfl | ⟨components, -, hvalid, hkey⟩
        · exact hroot
        · refine .inr ⟨components ++ [name], by simp, fun c hc => ?_, ?_⟩
          · rcases List.mem_append.mp hc with hc | hc
            · exact hvalid c hc
            · rwa [List.mem_singleton.mp hc]
          · -- a path below the root has no trailing slash that `join` would trim
            rw [childKey, htrim, hkey]
            simp

namespace World

variable {ρ : Type} {R : RemoteFilesystem ρ} {w : World ρ}

/-- The paths that a mount can resolve: those of its nodes, of their children and of its open
handles. -/
def Names (w : World ρ) (p : RemotePath) : Prop :=
  (∃ n, w.state.path n = some p) ∨ w.state.HasChild p ∨
    ∃ handle f, w.state.file handle = some f ∧ f.path = p

/-- The calls that a mount can send in a state. -/
structure MayAsk (w : World ρ) (call : RemoteCall) : Prop where
  paths : ∀ p ∈ call.paths, w.Names p
  writable : call.Mutates → w.config.readOnly = false

lemma Within.names (hw : Within w) {p : RemotePath} (hp : w.Names p) :
    Descends w.config.root.asStr p.asStr := by
  rcases hp with ⟨n, hn⟩ | ⟨n, q, name, hq, hjoin⟩ | ⟨handle, f, hf, rfl⟩
  · exact hw.nodes n p hn
  · exact (hw.nodes n q hq).join hjoin
  · exact hw.files handle f hf

lemma ensureWritable_ok (h : w.ensureWritable = .ok ()) : w.config.readOnly = false := by
  unfold ensureWritable at h
  split at h
  · cases h
  · next hro => simpa using hro

lemma resolve_writable {parent : NodeId} {name : Str} {x : RemotePath × RemotePath}
    (h : w.resolve parent name = .ok x) : w.config.readOnly = false := by
  unfold resolve at h
  cases hok : w.ensureWritable with
  | error e => simp [hok, bind, Except.bind] at h
  | ok _ => exact ensureWritable_ok hok

lemma resolveRename_writable {parent newParent : NodeId} {name newName : Str}
    {x : RemotePath × RemotePath × RemotePath × RemotePath}
    (h : w.resolveRename parent name newParent newName = .ok x) : w.config.readOnly = false := by
  unfold resolveRename at h
  cases hok : w.ensureWritable with
  | error e => simp [hok, bind, Except.bind] at h
  | ok _ => exact ensureWritable_ok hok

/-! ## One call -/

section
variable {call : RemoteCall} {p : RemotePath} (hcall : call.paths = [p]) (hp : w.Names p)
include hcall hp

lemma MayAsk.of_read (h : ¬ call.Mutates) : w.MayAsk call :=
  ⟨by simpa [hcall] using hp, fun hm => absurd hm h⟩

lemma MayAsk.of_writable (h : w.config.readOnly = false) : w.MayAsk call :=
  ⟨by simpa [hcall] using hp, fun _ => h⟩

end

lemma asked_lookup (parent : NodeId) (name : Str) :
    Conn.Asked w.MayAsk w.conn (w.lookup R parent name).2.conn := by
  unfold lookup
  split
  · exact .refl _
  · next child hchild =>
      have hask : ∀ {a conn}, w.conn.stat R child = (a, conn) →
          Conn.Asked w.MayAsk w.conn conn := fun h => by
        rw [(Conn.stat_eq h).2]
        exact Conn.asked_record _ _
          (.of_read rfl (.inr (.inl (hasChild_of_childPath hchild))) id)
      split
      · exact .refl _
      · split
        · exact .refl _
        · split
          · exact .refl _
          · unfold lookupRemote
            split
            · next h => exact hask h
            · next h => exact hask h
            · next h =>
                split
                · split <;> exact hask h
                · exact hask h

lemma asked_getattr (node : NodeId) :
    Conn.Asked w.MayAsk w.conn (w.getattr R node).2.conn := by
  unfold getattr
  split
  · exact .refl _
  · next path hpath =>
      have hask : ∀ {a conn}, w.conn.stat R path = (a, conn) →
          Conn.Asked w.MayAsk w.conn conn := fun h => by
        rw [(Conn.stat_eq h).2]
        exact Conn.asked_record _ _ (.of_read rfl (.inl ⟨node, State.pathOf_ok.mp hpath⟩) id)
      split
      · exact .refl _
      · split
        · exact .refl _
        · unfold getattrRemote
          split
          · next h => exact hask h
          · next h => exact hask h
          · next h =>
              split
              · split <;> exact hask h
              · exact hask h

lemma readdirFromCache_conn {w' : World ρ} {path : RemotePath} {entries : List DirectoryEntry}
    (h : w.readdirFromCache path = some (entries, w')) : w'.conn = w.conn := by
  rcases readdirFromCache_cases w path with ⟨hnone, -⟩ | ⟨entries', st, hsome, -⟩
  · rw [hnone] at h
    cases h
  · rw [hsome] at h
    cases h
    rfl

lemma asked_readdir (node : NodeId) :
    Conn.Asked w.MayAsk w.conn (w.readdir R node).2.conn := by
  unfold readdir
  split
  · exact .refl _
  · next path hpath =>
      split
      · next entries w' hcached =>
          split at hcached
          · rw [readdirFromCache_conn hcached]
            exact .refl _
          · cases hcached
      · split
        · exact .refl _
        · have hask : ∀ {a conn}, w.conn.readDir R path = (a, conn) →
              Conn.Asked w.MayAsk w.conn conn := fun h => by
            rw [(Conn.readDir_eq h).2]
            exact Conn.asked_record _ _
              (.of_read rfl (.inl ⟨node, State.pathOf_ok.mp hpath⟩) id)
          unfold readdirRemote
          split
          · next h =>
              split
              · next entries w' hcached =>
                  split at hcached
                  · rw [readdirFromCache_conn hcached]
                    exact hask h
                  · cases hcached
              · exact hask h
          · next h =>
              simp only
              split <;> exact hask h

lemma asked_openFile (node : NodeId) (flags : OpenFlags) :
    Conn.Asked w.MayAsk w.conn (w.openFile R node flags).2.conn := by
  unfold openFile
  split
  · exact .refl _
  · next hok =>
      split
      · exact .refl _
      · next path hpath =>
          split
          · next htrunc =>
              have hwritable : w.config.readOnly = false := by
                rw [htrunc, Bool.or_true, if_pos rfl] at hok
                exact ensureWritable_ok hok
              have hask : ∀ {a conn}, w.conn.setattr R path { size := some 0 } = (a, conn) →
                  Conn.Asked w.MayAsk w.conn conn := fun h => by
                rw [(Conn.setattr_eq h).2]
                exact Conn.asked_record _ _
                  (.of_writable rfl (.inl ⟨node, State.pathOf_ok.mp hpath⟩) hwritable)
              split
              · next h => exact hask h
              · next h => exact hask h
          · exact .refl _

lemma asked_read (handle : FileHandle) (offset : UInt64) (size : UInt32) :
    Conn.Asked w.MayAsk w.conn (w.read R handle offset size).2.conn := by
  unfold read
  split
  · exact .refl _
  · next file hfile =>
      have hname : w.Names file.path := .inr (.inr ⟨handle, file, hfile, rfl⟩)
      have hcontent : Conn.Asked w.MayAsk w.conn (w.readContent R file offset size).2.conn := by
        have hattr := asked_getattr (R := R) (w := w) file.node
        unfold readContent
        split
        · next e w' hget =>
            rw [hget] at hattr
            exact hattr
        · next metadata w' hget =>
            rw [hget] at hattr
            obtain ⟨calls, hlog, hcalls⟩ := (Store.read_frame (R := R) file.path
              metadata.attributes offset size w'.store w'.conn).2.log
            refine hattr.trans ⟨calls, hlog, fun x hx => ?_⟩
            obtain ⟨o, n, a, rfl⟩ := hcalls x hx
            exact .of_read rfl hname id
      split
      · exact Conn.asked_record _ _ (.of_read rfl hname id)
      · exact .refl _
      · exact hcontent
      · exact hcontent

lemma asked_write (handle : FileHandle) (offset : UInt64) (data : Bytes) :
    Conn.Asked w.MayAsk w.conn (w.write R handle offset data).2.conn := by
  unfold write
  split
  · exact .refl _
  · next hok =>
      split
      · exact .refl _
      · next file hfile =>
          have hask : ∀ {a conn}, w.conn.write R file.path offset data = (a, conn) →
              Conn.Asked w.MayAsk w.conn conn := fun h => by
            rw [(Conn.write_eq h).2]
            exact Conn.asked_record _ _
              (.of_writable rfl (.inr (.inr ⟨handle, file, hfile, rfl⟩)) (ensureWritable_ok hok))
          split
          · next h => exact hask h
          · next h => exact hask h

section
variable {parent : NodeId} {name : Str} {x : RemotePath × RemotePath}
  (hres : w.resolve parent name = .ok x)
include hres

lemma names_of_resolve : w.Names x.2 := by
  obtain ⟨hpath, hjoin⟩ := resolve_ok hres
  exact .inr (.inl ⟨parent, x.1, name, hpath, hjoin⟩)

lemma asked_resolved {call : RemoteCall} (hcall : call.paths = [x.2]) (r : ρ) :
    Conn.Asked w.MayAsk w.conn (w.conn.record call r) :=
  Conn.asked_record _ _ (.of_writable hcall (names_of_resolve hres) (resolve_writable hres))

end

lemma asked_create (parent : NodeId) (name : Str) (mode : UInt32) (flags : OpenFlags) :
    Conn.Asked w.MayAsk w.conn (w.create R parent name mode flags).2.conn := by
  unfold create
  split
  · exact .refl _
  · next parentPath child hres =>
      split
      · next h =>
          rw [(Conn.create_eq h).2]
          exact asked_resolved hres rfl _
      · next h =>
          rw [(Conn.create_eq h).2]
          exact asked_resolved hres rfl _

lemma asked_mkdir (parent : NodeId) (name : Str) (mode : UInt32) :
    Conn.Asked w.MayAsk w.conn (w.mkdir R parent name mode).2.conn := by
  unfold mkdir
  split
  · exact .refl _
  · next parentPath child hres =>
      split
      · next h =>
          rw [(Conn.mkdir_eq h).2]
          exact asked_resolved hres rfl _
      · next h =>
          rw [(Conn.mkdir_eq h).2]
          exact asked_resolved hres rfl _

lemma asked_unlink (parent : NodeId) (name : Str) :
    Conn.Asked w.MayAsk w.conn (w.unlink R parent name).2.conn := by
  unfold unlink
  split
  · exact .refl _
  · next parentPath child hres =>
      split
      · next h =>
          rw [(Conn.unlink_eq h).2]
          exact asked_resolved hres rfl _
      · next h =>
          rw [(Conn.unlink_eq h).2]
          exact asked_resolved hres rfl _

lemma asked_rmdir (parent : NodeId) (name : Str) :
    Conn.Asked w.MayAsk w.conn (w.rmdir R parent name).2.conn := by
  unfold rmdir
  split
  · exact .refl _
  · next parentPath child hres =>
      split
      · next h =>
          rw [(Conn.rmdir_eq h).2]
          exact asked_resolved hres rfl _
      · next h =>
          rw [(Conn.rmdir_eq h).2]
          exact asked_resolved hres rfl _

lemma asked_rename (parent : NodeId) (name : Str) (newParent : NodeId) (newName : Str) :
    Conn.Asked w.MayAsk w.conn (w.rename R parent name newParent newName).2.conn := by
  unfold rename
  split
  · exact .refl _
  · next srcParent dstParent src dst hres =>
      obtain ⟨hsrc, hdst, hjoin, hjoin'⟩ := resolveRename_ok hres
      have hask : ∀ {a conn}, w.conn.rename R src dst = (a, conn) →
          Conn.Asked w.MayAsk w.conn conn := fun h => by
        rw [(Conn.rename_eq h).2]
        refine Conn.asked_record _ _ ⟨fun p hp => ?_, fun _ => resolveRename_writable hres⟩
        -- a rename is the one call that names two paths
        have hp : p = src ∨ p = dst := by simpa [RemoteCall.paths] using hp
        rcases hp with rfl | rfl
        · exact .inr (.inl ⟨parent, srcParent, name, hsrc, hjoin⟩)
        · exact .inr (.inl ⟨newParent, dstParent, newName, hdst, hjoin'⟩)
      split
      · next h => exact hask h
      · next h => exact hask h

lemma asked_setattr (node : NodeId) (set : SetAttributes) :
    Conn.Asked w.MayAsk w.conn (w.setattr R node set).2.conn := by
  unfold setattr
  split
  · exact .refl _
  · next hok =>
      split
      · exact .refl _
      · next path hpath =>
          have hask : ∀ {a conn}, w.conn.setattr R path set = (a, conn) →
              Conn.Asked w.MayAsk w.conn conn := fun h => by
            rw [(Conn.setattr_eq h).2]
            exact Conn.asked_record _ _
              (.of_writable rfl (.inl ⟨node, State.pathOf_ok.mp hpath⟩) (ensureWritable_ok hok))
          split
          · next h => exact hask h
          · next h => exact hask h

/-- A call sends what the mount may ask for. -/
lemma asked_exec (w : World ρ) (call : Call) :
    Conn.Asked w.MayAsk w.conn (w.exec R call).conn := by
  cases call with
  | lookup parent name => exact asked_lookup parent name
  | getattr node => exact asked_getattr node
  | readdir node => exact asked_readdir node
  | openFile node flags => exact asked_openFile node flags
  | read handle offset size => exact asked_read handle offset size
  | write handle offset data => exact asked_write handle offset data
  | flush handle => exact .refl _
  | release handle => exact .refl _
  | create parent name mode flags => exact asked_create parent name mode flags
  | mkdir parent name mode => exact asked_mkdir parent name mode
  | unlink parent name => exact asked_unlink parent name
  | rmdir parent name => exact asked_rmdir parent name
  | rename parent name newParent newName => exact asked_rename parent name newParent newName
  | setattr node set => exact asked_setattr node set

/-! ## Whole runs -/

lemma asked_step (w : World ρ) (e : Event ρ) :
    Conn.Asked w.MayAsk w.conn (w.step R e).conn := by
  cases e with
  | call call => exact asked_exec w call
  | tick d => exact .refl _
  | external remote => exact .refl _
  | restart config => exact .refl _

lemma within_step (w : World ρ) (e : Event ρ) (hw : Within w) : Within (w.step R e) := by
  cases e with
  | call call => exact within_outcome (outcome_exec R w call) hw
  | tick d => exact ⟨hw.nodes, hw.files⟩
  | external remote => exact ⟨hw.nodes, hw.files⟩
  | restart config => exact within_new config _ _

/-- **A mount stays inside its root.**  Whatever names its calls are given, whatever the remote
answers, however it is changed by others, and whatever the cache directory holds: every path that
a step passes to the remote is the configured root, or the root without trailing slashes followed
by path components, none of which is empty, a dot entry or has a separator in it. -/
theorem remote_paths_confined (config : Config) (disk : Disk) (conn : Conn ρ)
    (es : List (Event ρ)) :
    AllSteps (step R)
      (fun w e => Conn.Asked (fun call => ∀ p ∈ call.paths, Confined w.config.root.asStr p.asStr)
        w.conn (w.step R e).conn)
      (World.new config disk conn) es := by
  refine allSteps_of_step within_step (fun w e hw => ?_) (within_new config disk conn) es
  exact (asked_step w e).mono fun call hcall p hp => (hw.names (hcall.paths p hp)).confined

end World

end CacheShfs
