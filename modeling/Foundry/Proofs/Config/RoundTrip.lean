import Foundry.Proofs.Cache.Stock
import Foundry.Proofs.Config.Acceptance
import Foundry.Proofs.Config.Sections
import Foundry.Proofs.Files.Writing

/-!
# A saved configuration is loaded again

The text of an acceptable configuration describes that configuration, and what is written to
a path is what is read from it. So the configuration that was saved is the one that is loaded.
-/

namespace Foundry

open Program Toml Machine Value Binary64 Config

/-! ## The whole configuration -/

/-- Configurations that a file can hold: the counts are signed numbers of 64 bits, the limits
whole numbers of seconds, and the environment is sorted by name, each name once. -/
structure Config.Storable (c : Config) : Prop where
  maxBodyBytes : c.server.maxBodyBytes < 0x8000000000000000
  maxSourceBytes : c.limits.maxSourceBytes < 0x8000000000000000
  maxEntries : c.cache.maxEntries < 0x8000000000000000
  maxAgeSecs : c.cache.maxAgeSecs < 0x8000000000000000
  buildTimeoutSecs : c.template.buildTimeoutSecs < 0x8000000000000000
  lockWaitSecs : c.template.lockWaitSecs < 0x8000000000000000
  max_whole : ∃ n, c.limits.maxTimeout.IsWhole n
  default_whole : ∃ n, c.limits.defaultTimeout.IsWhole n
  env_sorted : c.toolchain.env.Pairwise fun a b => a.1 < b.1

theorem fits_of_settings {members : List (String × Value)} {depth : Nat}
    (hdistinct : (members.map (·.1)).Nodup) (h : ∀ m ∈ members, m.2.IsSetting) :
    (table members).Fits (depth + 1) :=
  .table hdistinct fun m hm => .setting (h m hm)

theorem Toolchain.fits_members {t : Toolchain} (h : t.env.Pairwise fun a b => a.1 < b.1) :
    (table t.members).Fits 2 := by
  have henv : (table (t.env.map fun p => (p.1, .string p.2))).Fits 1 := by
    refine fits_of_settings ?_ (isSetting_env t.env)
    rw [List.map_map]
    refine List.pairwise_map.mpr (h.imp fun {a b} hlt => ?_)
    rintro (heq : a.1 = b.1)
    exact String.lt_irrefl b.1 (heq ▸ hlt)
  have hdependency : (table t.dependency.members).Fits 1 :=
    fits_of_settings (by simp [Dependency.members, textField]) t.dependency.isSetting_members
  have htext : ∀ text, (string text).Fits 1 := fun text => .setting (.string text)
  have htexts : ∀ texts : List String, (array (texts.map .string)).Fits 1 :=
    fun texts => .setting (.texts texts)
  refine .table t.distinct_members ?_
  simp [members, textField, textsField, htext, htexts, henv, hdependency]

namespace Config

variable {c : Config}

/-- A whole limit of an acceptable configuration can be written. -/
theorem isSetting_limit {x : Binary64} (hpos : (zero false).lt x = true)
    (hle : x.le (ofNat timeoutCeiling) = true) (hwhole : ∃ n, x.IsWhole n) :
    (float x).IsSetting := by
  obtain ⟨n, m, q, hparts, hvalue⟩ := hwhole
  obtain ⟨m', q', hparts', hceiling⟩ := exists_parts_le_ceiling hpos hle
  cases hparts.symm.trans hparts'
  have hden := fraction_snd_pos m q
  have hm := mantissa_pos hparts (pos_of_lt hpos).2
  have hnum : 0 < (fraction m q).1 := by
    cases q with
    | ofNat e => exact Nat.mul_pos hm (Nat.two_pow_pos e)
    | negSucc e => exact hm
  rw [hvalue] at hceiling hnum
  have hle : n ≤ timeoutCeiling := Nat.le_of_mul_le_mul_right hceiling hden
  exact .float ⟨m, q, hparts, hvalue⟩ (Nat.pos_of_mul_pos_right hnum) (hle.trans_lt (by decide))

theorem isSetting_limits (hcheck : c.check = .ok ()) (h : c.Storable) :
    ∀ m ∈ c.limits.members, m.2.IsSetting := by
  have haccepted := accepted_of_check hcheck
  exact Limits.isSetting_members h.maxSourceBytes
    (isSetting_limit haccepted.max_pos haccepted.max_le h.max_whole)
    (isSetting_limit haccepted.default_pos (Binary64.le_trans haccepted.default_le haccepted.max_le)
      h.default_whole)

theorem distinct_members (c : Config) : (c.members.map (·.1)).Nodup := by
  simp [members]

theorem fits_members (hcheck : c.check = .ok ()) (h : c.Storable) : (table c.members).Fits 3 := by
  have hgeneral : (table c.general.members).Fits 2 :=
    fits_of_settings (by simp [GeneralSettings.members, textField, flagField])
      c.general.isSetting_members
  have hserver : (table c.server.members).Fits 2 :=
    fits_of_settings (by simp [ServerSettings.members, textField, countField])
      (ServerSettings.isSetting_members h.maxBodyBytes)
  have hlimits : (table c.limits.members).Fits 2 :=
    fits_of_settings (by simp [Limits.members, countField, textsField]) (isSetting_limits hcheck h)
  have hcache : (table c.cache.members).Fits 2 := by
    refine fits_of_settings ?_ (CacheSettings.isSetting_members h.maxEntries h.maxAgeSecs)
    cases hdir : c.cache.dir <;>
      simp [CacheSettings.members, textField, flagField, countField, optionalField, hdir]
  have htemplate : (table c.template.members).Fits 2 := by
    refine fits_of_settings ?_
      (TemplateSettings.isSetting_members h.buildTimeoutSecs h.lockWaitSecs)
    cases hdir : c.template.dir <;>
      simp [TemplateSettings.members, textField, flagField, countField, textsField, optionalField,
        hdir]
  have hworkspace : (table c.workspace.members).Fits 2 := by
    refine fits_of_settings ?_ (isSetting_optionalField "root" c.workspace.root)
    cases hroot : c.workspace.root <;> simp [WorkspaceSettings.members, textField, optionalField,
      hroot]
  have htoolchain : (table c.toolchain.members).Fits 2 := Toolchain.fits_members h.env_sorted
  refine .table c.distinct_members ?_
  simp [members, hgeneral, hserver, hlimits, hcache, htemplate, hworkspace, htoolchain]

theorem ofValue?_readBack (hcheck : c.check = .ok ()) (h : c.Storable) :
    ofValue? (readBack c.members) = some c := by
  obtain ⟨r, hrecord, hread⟩ := exists_record_readBack c.distinct_members
  unfold ofValue?
  rw [hrecord, Option.bind_eq_bind, Option.bind_some]
  simp only [hread]
  simp [members, Record.read, Record.get?, close_node_table, GeneralSettings.ofValue?_readBack,
    ServerSettings.ofValue?_readBack h.maxBodyBytes,
    Limits.ofValue?_readBack h.maxSourceBytes (isSetting_limits hcheck h),
    CacheSettings.ofValue?_readBack h.maxEntries h.maxAgeSecs,
    TemplateSettings.ofValue?_readBack h.buildTimeoutSecs h.lockWaitSecs,
    WorkspaceSettings.ofValue?_readBack, Toolchain.ofValue?_readBack h.env_sorted]

/-- The text of an acceptable configuration describes it. -/
theorem exists_render (hcheck : c.check = .ok ()) (h : c.Storable) :
    ∃ text, c.render = .ok text ∧ parse? text = some c := by
  have hfits := fits_members hcheck h
  refine ⟨renderFile c.members, write_of_fits hfits, ?_⟩
  rw [parse?, parse?_renderFile hfits (by decide)]
  exact ofValue?_readBack hcheck h

end Config

/-! ## Saving and loading -/

namespace Machine

variable {α β : Type} {m m' : Machine} {a : α}

theorem runNow_action_bind {p : Action α} (h : m.runNow p.run = (m', some (.ok a)))
    (f : α → Action β) : m.runNow (p >>= f).run = m'.runNow (f a).run := by
  rw [Action.run_bind, runNow_bind_of_eq h]

theorem runNow_lift {p : Program α} (h : m.runNow p = (m', some a)) :
    m.runNow (liftM p : Action α).run = (m', some (.ok a)) := by
  have hrun : (liftM p : Action α).run = p >>= fun a => .done (.ok a) := rfl
  rw [hrun, runNow_bind_of_eq h]
  rfl

theorem runNow_orFail {p : Program (Except Cause α)} (h : m.runNow p = (m', some (.ok a)))
    (fault : Cause → Fault) : m.runNow (orFail fault p).run = (m', some (.ok a)) := by
  rw [orFail, ExceptT.run_mk, runNow_bind_of_eq h]
  rfl

theorem runNow_ask {c : Call} {r : c.Reply} (h : m.answer? c = some (m', r)) :
    m.runNow (ask c) = (m', some r) := by
  rw [ask, runNow, h]
  rfl

end Machine

namespace Config

variable {c : Config} {m : Machine} {path text : String}

theorem runNow_load (hexists : m.files.exists? m.cwd path = true)
    (hread : m.files.read m.cwd path = .ok text.toUTF8) (hparse : parse? text = some c)
    (hcheck : c.check = .ok ()) : m.runNow (load path).run = (m, some (.ok c)) := by
  have hfound : m.runNow (ask (.pathExists path)) = (m, some true) :=
    runNow_ask (by simp [answer?, seeing, hexists])
  have hbytes : m.runNow (ask (.readFile path)) = (m, some (.ok text.toUTF8)) :=
    runNow_ask (by simp [answer?, seeing, hread])
  have htext : m.runNow (readTextFile path) = (m, some (.ok text)) := by
    rw [readTextFile, readFile, runNow_bind_of_eq hbytes]
    simp only [fromUTF8?_toUTF8]
    rfl
  have hof : ofText path text = .ok c := by simp [ofText, hparse, hcheck]
  rw [load, runNow_action_bind (runNow_lift hfound), if_pos rfl, orFault,
    runNow_action_bind (runNow_orFail htext _), hof]
  rfl

theorem runNow_save {files : Files} {dir : String} (hparent : Path.parent? path = some dir)
    (hdirs : (m.files.makeDirs m.cwd dir).2 = .ok ()) (hrender : c.render = .ok text)
    (hwrite : (m.files.makeDirs m.cwd dir).1.write m.cwd path text.toUTF8 = .ok files) :
    m.runNow (c.save path).run = (m.withFiles files, some (.ok ())) := by
  have hmade : m.runNow (ask (.makeDirs dir)) =
      (m.withFiles (m.files.makeDirs m.cwd dir).1, some (.ok ())) :=
    runNow_ask (by simp [answer?, changingPartly, hdirs])
  have hwritten : (m.withFiles (m.files.makeDirs m.cwd dir).1).runNow
      (ask (.writeFile path text.toUTF8)) = (m.withFiles files, some (.ok ())) :=
    runNow_ask (by simp only [answer?, changing, withFiles, hwrite])
  rw [save, hparent, runNow_action_bind (runNow_orFail hmade _), hrender]
  exact runNow_orFail hwritten _

/-- An acceptable configuration that is saved to a path that can be written is loaded from it. -/
theorem saved_config_is_loaded (m : Machine) (path : String) (hcheck : c.check = .ok ())
    (h : c.Storable) (hpath : m.files.Writable m.cwd path) :
    ∃ m', m.runNow (c.save path).run = (m', some (.ok ())) ∧
      m'.runNow (Config.load path).run = (m', some (.ok c)) := by
  obtain ⟨text, hrender, hparse⟩ := exists_render hcheck h
  obtain ⟨dir, hparent, hdirs, hretains⟩ := hpath
  obtain ⟨files, hwrite, hread, hexists⟩ := hretains.exists_write text.toUTF8
  exact ⟨m.withFiles files, runNow_save hparent hdirs hrender hwrite,
    runNow_load hexists hread hparse hcheck⟩

/-- Texts that need every way of quoting, lists of every length, and names of every kind. -/
def thorny : Config :=
  { server := { bind := "\n\"\"\"\\'''\r\x01\"", maxBodyBytes := 0x7fffffffffffffff }
    limits := {
      maxTimeout := Binary64.ofNat 86400
      defaultTimeout := Binary64.ofNat 1
      denyPatterns := ["", "\n'''", "\"\"\"\\"] }
    cache := { dir := some "\\" }
    toolchain :=
      { runArgs := [], artifacts := ["\t"], env := [("", "x"), ("a.b", "\n"), ("c d\"", "'")] } }

theorem saved_config_is_loaded_thorny : thorny.check = .ok () ∧ thorny.Storable ∧
    Files.Writable {} [] "etc/config.toml" ∧
    ∃ m', Machine.bare.runNow (thorny.save "etc/config.toml").run = (m', some (.ok ())) ∧
      m'.runNow (Config.load "etc/config.toml").run = (m', some (.ok thorny)) := by
  have hcheck : thorny.check = .ok () := by decide +kernel
  have hstorable : thorny.Storable := {
    maxBodyBytes := by decide
    maxSourceBytes := by decide
    maxEntries := by decide
    maxAgeSecs := by decide
    buildTimeoutSecs := by decide
    lockWaitSecs := by decide
    max_whole := ⟨86400, 86400 * 2 ^ 36, -36, by decide +kernel, by decide +kernel⟩
    default_whole := ⟨1, 2 ^ 52, -52, by decide +kernel, by decide +kernel⟩
    env_sorted := by decide +kernel }
  have hwritable : Files.Writable {} [] "etc/config.toml" :=
    ⟨"etc", by decide +kernel, by decide +kernel, Files.retains_of_free (by decide +kernel)⟩
  exact ⟨hcheck, hstorable, hwritable,
    saved_config_is_loaded Machine.bare _ hcheck hstorable hwritable⟩

end Config

end Foundry
