import CacheShfs.Vfs.Isolation

/-!
# Looking into the directory through an outage

A mount whose server has gone away answers from its cache directory.  So an entry or a listing in
the directory shows itself to the user: the mount walks to the parent while the server is there,
the server goes away, and the next `lookup`, `getattr` or `readdir` either fails or returns what
the directory has (`SameReplies.entry`, `SameReplies.usable_listing`).

Only a listing that cannot be served needs more.  A rename puts it in the place of one that can
(`SameReplies.listing`).
-/

namespace CacheShfs

open Machine

/-- What the server has, while it is there: a directory under every path. -/
def directoryAttributes : FileAttributes := ⟨.directory, 0, 0, 0, 0, none, none, none⟩

/-- A server that is there (`true`) or away. -/
def intermittent : RemoteFilesystem Bool where
  stat _ up := (if up then .ok directoryAttributes else .error disconnected, up)
  readDir _ up := (if up then .ok [] else .error disconnected, up)
  read _ _ _ up := (.error disconnected, up)
  write _ _ _ up := (.error disconnected, up)
  create _ _ up := (.error disconnected, up)
  mkdir _ _ up := (.error disconnected, up)
  unlink _ up := (.error disconnected, up)
  rmdir _ up := (.error disconnected, up)
  rename _ _ up := (if up then .ok () else .error disconnected, up)
  setattr _ _ up := (.error disconnected, up)

namespace World

/-- A mount that trusts nothing it has confirmed before. -/
structure Distrustful (config : Config) : Prop where
  online : config.cacheMode = .onDemand
  writable : config.readOnly = false
  ttl : config.metadataTtl = 0

namespace Distrustful

variable {ρ : Type} {w : World ρ} (h : Distrustful w.config)
include h

lemma offline : w.offline = false := by simp [World.offline, h.online]

lemma metadataFresh (path : RemotePath) : w.metadataFresh path = false := by
  rw [World.metadataFresh, h.offline, h.ttl]
  cases w.state.validatedAt path <;> simp

lemma freshAttrs (path : RemotePath) : w.freshAttrs path = none := by
  rw [World.freshAttrs, h.metadataFresh]
  rfl

lemma freshNegative (parent : NodeId) (name : Str) : w.freshNegative parent name = false := by
  rw [World.freshNegative, h.offline, Config.negativeTtl, h.ttl]
  cases w.state.negativeAt (parent, name) <;> simp

end Distrustful

variable {config : Config} {store : Store} {state : State} {conn : Conn Bool}

/-! ## With the server -/

lemma lookup_up (h : Distrustful config) (hup : conn.remote = true) {parent : NodeId} {name : Str}
    {path child : RemotePath} (hpath : state.path parent = some path)
    (hjoin : path.join name = .ok child) :
    ((⟨config, store, state, conn⟩ : World Bool).lookup intermittent parent name).2 =
      ⟨config, store.putAttrs child directoryAttributes,
        (((state.stamp child conn.now).unnegate parent name).intern child).2,
        conn.record (.stat child (.ok directoryAttributes)) true⟩ := by
  have hchild : (⟨config, store, state, conn⟩ : World Bool).childPath parent name = .ok child :=
    childPath_ok.mpr ⟨path, hpath, hjoin⟩
  have hd : Distrustful (⟨config, store, state, conn⟩ : World Bool).config := h
  unfold lookup
  rw [hchild]
  simp only [hd.freshNegative, hd.freshAttrs, hd.offline, Bool.false_eq_true, if_false]
  simp [lookupRemote, Conn.stat, intermittent, hup, answerAs]

lemma readdir_up (h : Distrustful config) (hup : conn.remote = true) {node : NodeId}
    {path : RemotePath} (hpath : state.path node = some path) :
    ((⟨config, store, state, conn⟩ : World Bool).readdir intermittent node).2 =
      ⟨config, store.recordListing path [], state.stamp path conn.now,
        conn.record (.readDir path (.ok [])) true⟩ := by
  have hd : Distrustful (⟨config, store, state, conn⟩ : World Bool).config := h
  unfold readdir
  simp only [State.pathOf_ok.mpr hpath, hd.metadataFresh, hd.offline, Bool.false_eq_true, if_false]
  simp [readdirRemote, Conn.readDir, intermittent, hup, realChildren, stampChildren]

lemma rename_up (h : Distrustful config) (hup : conn.remote = true) {node : NodeId}
    {name newName : Str} {path src dst : RemotePath} (hpath : state.path node = some path)
    (hsrc : path.join name = .ok src) (hdst : path.join newName = .ok dst) :
    ((⟨config, store, state, conn⟩ : World Bool).rename intermittent node name node newName).2 =
      ⟨config, ((store.rename src dst).invalidateChildren path).invalidateChildren path,
        (((state.renamePath src dst).unstamp src).negate node name conn.now).unnegate node newName,
        conn.record (.rename src dst (.ok ())) true⟩ := by
  have hres : (⟨config, store, state, conn⟩ : World Bool).resolveRename node name node newName =
      .ok (path, path, src, dst) := by
    simp [resolveRename, ensureWritable, h.writable, State.pathOf_ok.mpr hpath, hsrc, hdst, bind,
      Except.bind, pure, Except.pure]
  unfold rename
  rw [hres]
  simp [Conn.rename, intermittent, hup]

/-! ## Without the server -/

lemma lookup_away (h : Distrustful config) (haway : conn.remote = false) {parent : NodeId}
    {name : Str} {path child : RemotePath} (hpath : state.path parent = some path)
    (hjoin : path.join name = .ok child) :
    ((⟨config, store, state, conn⟩ : World Bool).lookup intermittent parent name).1.isOk =
      (store.entry child.asStr).isSome := by
  have hchild : (⟨config, store, state, conn⟩ : World Bool).childPath parent name = .ok child :=
    childPath_ok.mpr ⟨path, hpath, hjoin⟩
  have hd : Distrustful (⟨config, store, state, conn⟩ : World Bool).config := h
  unfold lookup
  rw [hchild]
  simp only [hd.freshNegative, hd.freshAttrs, hd.offline, Bool.false_eq_true, if_false]
  simp only [lookupRemote, Conn.stat, intermittent, haway, disconnected, Store.getAttrs_eq]
  cases store.entry child.asStr with
  | none => rfl
  | some e => rfl

lemma getattr_away (h : Distrustful config) (haway : conn.remote = false) {node : NodeId}
    {path : RemotePath} (hpath : state.path node = some path) :
    ((⟨config, store, state, conn⟩ : World Bool).getattr intermittent node).1.isOk =
      (store.entry path.asStr).isSome := by
  have hd : Distrustful (⟨config, store, state, conn⟩ : World Bool).config := h
  unfold getattr
  simp only [State.pathOf_ok.mpr hpath, hd.freshAttrs, hd.offline, Bool.false_eq_true, if_false]
  simp only [getattrRemote, Conn.stat, intermittent, haway, disconnected, Store.getAttrs_eq]
  cases store.entry path.asStr with
  | none => rfl
  | some e => rfl

/-- A listing all of whose names are path components is served. -/
lemma cachedChildren_isSome (path : RemotePath) (s : Store) (names : Option (List Str)) :
    (names.bind (cachedChildren path s)).isSome = (usable names).isSome := by
  rw [cachedChildren_usable]
  cases husable : usable names with
  | none => rfl
  | some list =>
      rw [usable, Option.filter_eq_some_iff] at husable
      obtain ⟨children, hchildren⟩ := cachedChildren_of_valid path s (by simpa using husable.2)
      rw [Option.bind_some, Option.isSome_some, hchildren, Option.isSome_some]

lemma readdir_away (h : Distrustful config) (haway : conn.remote = false) {node : NodeId}
    {path : RemotePath} (hpath : state.path node = some path) :
    ((⟨config, store, state, conn⟩ : World Bool).readdir intermittent node).1.isOk =
      (usable (store.listing path.asStr)).isSome := by
  have hd : Distrustful (⟨config, store, state, conn⟩ : World Bool).config := h
  rw [← cachedChildren_isSome path store, ← Store.getChildren_eq]
  unfold readdir
  simp only [State.pathOf_ok.mpr hpath, hd.metadataFresh, hd.offline, Bool.false_eq_true, if_false]
  simp only [readdirRemote, Conn.readDir, intermittent, haway, disconnected, isUnreachable,
    readdirFromCache, if_true, Bool.false_eq_true, if_false]
  cases store.getChildren path with
  | none => rfl
  | some names =>
      simp only [Option.bind_some]
      cases cachedChildren path store names <;> rfl

/-! ## Walking to a path -/

/-- The connection before the first call. -/
def firstConn : Conn Bool := ⟨true, 0, []⟩

/-- Some calls give `path` a node while the server is there.  They leave the same session whatever
directory the mount is on, and the listings of that directory, and its entries for longer
paths. -/
structure Reached (config : Config) (path : RemotePath) (node : NodeId) (es : List (Event Bool))
    (state : State) (conn : Conn Bool) : Prop where
  inSession : ∀ e ∈ es, InSession e
  up : conn.remote = true
  wf : state.Wf
  node_path : state.path node = some path
  ends : ∀ d, ∃ s, run (step intermittent) (World.new config d firstConn) es =
      ⟨config, s, state, conn⟩ ∧
    (∀ key, (trimEndSlashes path.asStr).length < key.length →
      s.entry key = d.stored.entries.lookup key) ∧
    ∀ key, s.listing key = d.listing key

namespace Reached

variable {path : RemotePath} {node : NodeId} {es : List (Event Bool)}

/-- The mount knows its root. -/
lemma root (config : Config) :
    Reached config config.root .root [] (State.new config.root) firstConn where
  inSession := by simp
  up := rfl
  wf := State.wf_new config.root
  node_path := AList.lookup_insert _
  ends d := ⟨_, rfl, fun _ _ => rfl, fun _ => rfl⟩

/-- One more `lookup`. -/
lemma child (h : Distrustful config) (hreach : Reached config path node es state conn)
    {name : Str} (hname : ValidComponent name) :
    Reached config (path.child name hname)
      ((((state.stamp (path.child name hname) conn.now).unnegate node name).intern
        (path.child name hname)).1)
      (es ++ [.call (.lookup node name)])
      (((state.stamp (path.child name hname) conn.now).unnegate node name).intern
        (path.child name hname)).2
      (conn.record (.stat (path.child name hname) (.ok directoryAttributes)) true) where
  inSession e he := by
    rcases List.mem_append.mp he with he | he
    · exact hreach.inSession e he
    · cases List.mem_singleton.mp he
      trivial
  up := rfl
  wf := ((hreach.wf.stamp _ _).unnegate _ _).intern _
  node_path := ((hreach.wf.stamp _ _).unnegate _ _).path_intern_self _
  ends d := by
    obtain ⟨s, hrun, hentry, hlisting⟩ := hreach.ends d
    refine ⟨s.putAttrs (path.child name hname) directoryAttributes, ?_, fun key hlen => ?_,
      fun key => ?_⟩
    · rw [run_append, hrun]
      exact lookup_up h hreach.up hreach.node_path (path.join_eq_ok hname)
    · have hchild : (path.child name hname).asStr = childKey path.asStr name := rfl
      rw [hchild, trimEndSlashes_childKey hname] at hlen
      have hlonger : (trimEndSlashes path.asStr).length < (childKey path.asStr name).length := by
        simp [childKey]
      rw [Store.entry_putAttrs, if_neg, hentry key (hlonger.trans hlen)]
      rintro rfl
      exact lt_irrefl _ hlen
    · rw [Store.listing_putAttrs, hlisting]

end Reached

/-- Every path of the mount can be reached. -/
lemma exists_reached (h : Distrustful config) {key : Str}
    (hkey : Descends config.root.asStr key) : ∃ path node es state conn,
      path.asStr = key ∧ Reached config path node es state conn := by
  induction hkey with
  | root => exact ⟨config.root, _, _, _, _, rfl, .root config⟩
  | child _ hname ih =>
      obtain ⟨path, node, es, state, conn, rfl, hreach⟩ := ih
      exact ⟨_, _, _, _, _, rfl, hreach.child h hname⟩

/-- The name of a file beside one with this name. -/
def besideName (name : Str) : Str := 'x' :: name

lemma validComponent_besideName {name : Str} (h : ValidComponent name) :
    ValidComponent (besideName name) := by
  obtain ⟨hne, -, -, hslash, hback⟩ := h
  refine ⟨by simp [besideName], ?_, ?_, ?_, ?_⟩
  · simp [besideName]
  · simp [besideName]
  · simpa [besideName] using hslash
  · simpa [besideName] using hback

lemma childKey_ne_beside (p name : Str) : childKey p name ≠ childKey p (besideName name) := by
  intro heq
  have hlen := congrArg List.length (childKey_right_inj heq)
  simp [besideName] at hlen

/-- What lies beside a file is not below it. -/
lemma not_below_beside {p name : Str} (hname : ValidComponent name) :
    ¬ Below (childKey p name) (childKey p (besideName name)) := by
  intro hbelow
  have hlonger : (trimEndSlashes p).length < (childKey p name).length := by simp [childKey]
  rcases below_childKey_cases (validComponent_besideName hname).2.2.2.1 hbelow with heq | hprefix
  · exact hlonger.ne' (congrArg List.length heq)
  · have hle := hprefix.length_le
    simp only [List.length_append, List.length_singleton] at hle
    omega

/-- A file is moved over the listed directory beside it, and the server goes away.  The directory
has then the listing that the file had, if it had one. -/
lemma exists_displaced (h : Distrustful config) {p name : Str} (hp : Descends config.root.asStr p)
    (hname : ValidComponent name) : ∃ path node es state conn,
      (∀ e ∈ es, InSession e) ∧ conn.remote = false ∧ state.path node = some path ∧
      ∀ d, ∃ s, run (step intermittent) (World.new config d firstConn) es =
          ⟨config, s, state, conn⟩ ∧
        s.listing path.asStr = (d.listing (childKey p name)).or (some []) := by
  obtain ⟨path, parent, es, state, conn, rfl, hreach⟩ := exists_reached h hp
  have hbeside := validComponent_besideName hname
  have hchild := hreach.child h hbeside
  set src := path.child name hname
  set dst := path.child (besideName name) hbeside
  set node := (((state.stamp dst conn.now).unnegate parent (besideName name)).intern dst).1
  set state₁ := (((state.stamp dst conn.now).unnegate parent (besideName name)).intern dst).2
  set conn₁ := conn.record (.stat dst (.ok directoryAttributes)) true
  have hdstPath : dst.asStr ≠ path.asStr := childKey_ne path.asStr _ hbeside
  have hsrcDst : src.asStr ≠ dst.asStr := childKey_ne_beside path.asStr name
  -- the directory beside the file is listed, and the file is renamed over it
  set state₂ := state₁.stamp dst conn₁.now
  set conn₂ := conn₁.record (.readDir dst (.ok [])) true
  have hparent : state₂.path parent = some path :=
    ((hreach.wf.stamp _ _).unnegate _ _).path_intern dst hreach.node_path
  have hnode : state₂.path node = some dst := hchild.node_path
  set state₃ := (((state₂.renamePath src dst).unstamp src).negate parent name conn₂.now).unnegate
    parent (besideName name)
  set conn₃ := conn₂.record (.rename src dst (.ok ())) true
  refine ⟨dst, node, es ++ [.call (.lookup parent (besideName name))] ++ [.call (.readdir node),
    .call (.rename parent name parent (besideName name)), .external false], state₃,
    { conn₃ with remote := false }, fun e he => ?_, rfl, ?_, fun d => ?_⟩
  · rcases List.mem_append.mp he with he | he
    · exact hchild.inSession e he
    · simp only [List.mem_cons, List.not_mem_nil, or_false] at he
      rcases he with rfl | rfl | rfl <;> trivial
  · rw [State.path_unnegate, State.path_negate, State.path_unstamp, State.path_renamePath, hnode]
    split <;> rfl
  · obtain ⟨s, hrun, -, hlisting⟩ := hchild.ends d
    refine ⟨(((s.recordListing dst []).rename src dst).invalidateChildren path).invalidateChildren
      path, ?_, ?_⟩
    · rw [run_append, hrun]
      simp only [run_cons, run_nil, step, exec]
      rw [readdir_up h rfl hchild.node_path, rename_up h rfl hparent (path.join_eq_ok hname)
        (path.join_eq_ok hbeside)]
    · rw [Store.listing_invalidateChildren, if_neg hdstPath, Store.listing_invalidateChildren,
        if_neg hdstPath, Store.listing_rename, if_neg fun hand => not_below_beside hname hand.1,
        if_pos rfl, Store.listing_recordListing, if_neg hsrcDst, Store.listing_recordListing,
        if_pos rfl, hlisting]
      rfl

/-! ## What the replies tell -/

/-- Two mounts over two directories that answer alike. -/
def SameReplies (config : Config) (d d' : Disk) : Prop :=
  ∀ es, (∀ e ∈ es, InSession e) → (World.new config d' firstConn).replies intermittent es =
    (World.new config d firstConn).replies intermittent es

lemma length_reply {ρ : Type} (R : RemoteFilesystem ρ) (w w' : World ρ) (e : Event ρ) :
    (w'.reply R e).length = (w.reply R e).length := by
  cases e with
  | call call => cases call <;> rfl
  | _ => rfl

/-- The last replies of two runs with the same replies. -/
lemma SameReplies.last {d d' : Disk} (h : SameReplies config d d') (es : List (Event Bool))
    (e : Event Bool) (hes : ∀ x ∈ es ++ [e], InSession x) :
    (run (step intermittent) (World.new config d' firstConn) es).reply intermittent e =
      (run (step intermittent) (World.new config d firstConn) es).reply intermittent e := by
  have hall := h (es ++ [e]) hes
  simp only [replies, outputs_append, outputs, List.append_nil] at hall
  exact List.append_inj_right' hall (length_reply _ _ _ _)

section
variable {path : RemotePath} {node : NodeId} {es : List (Event Bool)} {d d' : Disk}

/-- The server goes away. -/
def goAway : Event Bool := .external false

lemma Reached.run_goAway (hreach : Reached config path node es state conn) (d : Disk) : ∃ s,
    run (step intermittent) (World.new config d firstConn) (es ++ [goAway]) =
      ⟨config, s, state, { conn with remote := false }⟩ ∧
    (∀ key, (trimEndSlashes path.asStr).length < key.length →
      s.entry key = d.stored.entries.lookup key) ∧ ∀ key, s.listing key = d.listing key := by
  obtain ⟨s, hrun, hentry, hlisting⟩ := hreach.ends d
  exact ⟨s, by rw [run_append, hrun]; rfl, hentry, hlisting⟩

lemma Reached.inSession_goAway (hreach : Reached config path node es state conn) (call : Call) :
    ∀ e ∈ (es ++ [goAway]) ++ [.call call], InSession e := by
  intro e he
  rcases List.mem_append.mp he with he | he
  · rcases List.mem_append.mp he with he | he
    · exact hreach.inSession e he
    · cases List.mem_singleton.mp he
      trivial
  · cases List.mem_singleton.mp he
    trivial

namespace SameReplies

variable (hsame : SameReplies config d d') (h : Distrustful config)
include hsame h

/-- **Entries tell themselves**: a `lookup`, or a `getattr` of the root, is answered during the
outage exactly where the directory has an entry. -/
theorem entry {key : Str} (hkey : Descends config.root.asStr key) :
    (d'.stored.entries.lookup key).isSome = (d.stored.entries.lookup key).isSome := by
  cases hkey with
  | root =>
      have hlast := hsame.last [goAway] (.call (.getattr .root)) (by simp [goAway, InSession])
      simp only [reply, List.cons.injEq, Reply.metadata.injEq, and_true] at hlast
      have haway : ∀ d, ((⟨config, Store.new d config.cacheChunkSize, State.new config.root,
          { firstConn with remote := false }⟩ : World Bool).getattr intermittent .root).1.isOk =
            (d.stored.entries.lookup config.root.asStr).isSome := fun d =>
        getattr_away h rfl (Reached.root config).node_path
      exact (haway d').symm.trans ((congrArg Except.isOk hlast).trans (haway d))
  | @child p name hp hname =>
      obtain ⟨path, node, es, state, conn, rfl, hreach⟩ := exists_reached h hp
      obtain ⟨s, hrun, hentry, -⟩ := hreach.run_goAway d
      obtain ⟨s', hrun', hentry', -⟩ := hreach.run_goAway d'
      have hlonger : (trimEndSlashes path.asStr).length < (childKey path.asStr name).length := by
        simp [childKey]
      have hlast := hsame.last _ _ (hreach.inSession_goAway (.lookup node name))
      rw [hrun, hrun'] at hlast
      simp only [reply, List.cons.injEq, Reply.metadata.injEq, and_true] at hlast
      have hok := congrArg Except.isOk hlast
      rw [lookup_away h rfl hreach.node_path (path.join_eq_ok hname),
        lookup_away h rfl hreach.node_path (path.join_eq_ok hname)] at hok
      rw [← hentry _ hlonger, ← hentry' _ hlonger]
      exact hok

/-- **Listings that can be served tell themselves**: a `readdir` is answered during the outage
exactly where the directory has one. -/
theorem usable_listing {key : Str} (hkey : Descends config.root.asStr key) :
    (usable (d'.listing key)).isSome = (usable (d.listing key)).isSome := by
  obtain ⟨path, node, es, state, conn, rfl, hreach⟩ := exists_reached h hkey
  obtain ⟨s, hrun, -, hlisting⟩ := hreach.run_goAway d
  obtain ⟨s', hrun', -, hlisting'⟩ := hreach.run_goAway d'
  have hlast := hsame.last _ _ (hreach.inSession_goAway (.readdir node))
  rw [hrun, hrun'] at hlast
  simp only [reply, List.cons.injEq, Reply.entries.injEq, and_true] at hlast
  have hok := congrArg Except.isOk hlast
  rw [readdir_away h rfl hreach.node_path, readdir_away h rfl hreach.node_path, hlisting,
    hlisting'] at hok
  exact hok

/-- **So do the others**: in the place of a listing that can be served, one that cannot makes the
`readdir` fail. -/
theorem listing {key : Str} (hkey : Descends config.root.asStr key)
    (hne : key ≠ config.root.asStr) : (d'.listing key).isSome = (d.listing key).isSome := by
  have husable := hsame.usable_listing h hkey
  cases hkey with
  | root => exact absurd rfl hne
  | @child p name hp hname =>
      obtain ⟨path, node, es, state, conn, hes, haway, hpath, hends⟩ := exists_displaced h hp hname
      obtain ⟨s, hrun, hlisting⟩ := hends d
      obtain ⟨s', hrun', hlisting'⟩ := hends d'
      have hlast := hsame.last es (.call (.readdir node)) (fun e he => by
        rcases List.mem_append.mp he with he | he
        · exact hes e he
        · cases List.mem_singleton.mp he
          trivial)
      rw [hrun, hrun'] at hlast
      simp only [reply, List.cons.injEq, Reply.entries.injEq, and_true] at hlast
      have hok := congrArg Except.isOk hlast
      rw [readdir_away h haway hpath, readdir_away h haway hpath, hlisting, hlisting'] at hok
      generalize d.listing (childKey p name) = names at husable hok ⊢
      generalize d'.listing (childKey p name) = names' at husable hok ⊢
      cases names with
      | none =>
          cases names' with
          | none => rfl
          | some list => exact absurd (husable.symm.trans hok) (by simp [usable])
      | some list =>
          cases names' with
          | none => exact absurd (husable.trans hok.symm) (by simp [usable])
          | some list' => rfl

/-- A directory that has nothing for the mount answers like one that has nothing only. -/
theorem bare (hd : d.Bare config.root.asStr) : d'.Bare config.root.asStr where
  entry key hkey := by
    have hentry := hsame.entry h hkey
    rw [hd.entry key hkey, Option.isSome_none] at hentry
    exact Option.isSome_eq_false_iff.mp hentry |> Option.isNone_iff_eq_none.mp
  listing key hkey hne := by
    have hlisting := hsame.listing h hkey hne
    rw [hd.listing key hkey hne, Option.isSome_none] at hlisting
    exact Option.isSome_eq_false_iff.mp hlisting |> Option.isNone_iff_eq_none.mp
  rootListing := by
    have husable := hsame.usable_listing h .root
    rw [hd.rootListing, Option.isSome_none] at husable
    exact Option.isSome_eq_false_iff.mp husable |> Option.isNone_iff_eq_none.mp

end SameReplies

end

end World

end CacheShfs
