import Mathlib.Data.Rat.Floor
import OpenClaw.Connector.MediaStore
import OpenClaw.WeChat.NonceWindow

/-!
# What a media token opens

The payload of a token is split at its first two colons, so the channel is read back only if it has
none. The file outlives the token when its modification time is not too far behind the expiry.
-/

namespace OpenClaw.Connector

open Foundation
open Webhook (truncate)
set_option autoImplicit false

/-! ## Tokens -/

section Tokens
variable {hmac : HmacSha256} {cfg : MediaConfig} {filename channelId : CodePoints} {expiry : ℤ}

/-- The channel is read back exactly when it has no colon. -/
theorem fields?_payload {payload : CodePoints} (hfile : colonPoint ∉ filename)
    (h : MediaConfig.payload? filename channelId expiry = some payload) :
    MediaConfig.fields? payload =
      if colonPoint ∈ channelId then none else some (filename, channelId, expiry) := by
  obtain ⟨numeral, hnumeral, rfl⟩ := Option.map_eq_some_iff.mp h
  rw [MediaConfig.fields?, CodePoints.splitFirst_append hfile, Option.bind_some]
  dsimp only
  split
  · rename_i hcolon
    obtain ⟨front, back, rfl, hfront⟩ := List.eq_append_cons_of_mem hcolon
    rw [List.append_assoc, List.cons_append, CodePoints.splitFirst_append hfront, Option.bind_some]
    dsimp only
    rw [CodePoints.int?_colon]
    · rfl
    · exact List.mem_append_right _ List.mem_cons_self
  · rename_i hcolon
    rw [CodePoints.splitFirst_append hcolon, Option.bind_some]
    dsimp only
    rw [CodePoints.int?_ofInt? hnumeral, Option.map_some]

theorem dot_not_mem_hex (bytes : List UInt8) : dotPoint ∉ CodePoints.ofChars (hex bytes) :=
  CodePoints.hex_not_mem (by decide)

/-- A token is decoded to what its payload splits into. -/
theorem decode_generate {token : CodePoints}
    (h : cfg.generateToken hmac filename channelId expiry = .ok token) :
    ∃ payload, MediaConfig.payload? filename channelId expiry = some payload ∧
      cfg.decodeToken hmac token = MediaConfig.fields? payload := by
  unfold MediaConfig.generateToken at h
  split at h
  · cases h
  rename_i payload hpayload
  split at h
  · cases h
  rename_i bytes hbytes
  cases h
  refine ⟨payload, hpayload, ?_⟩
  obtain ⟨cs, hcs, rfl⟩ := CodePoints.encode_eq_ok hbytes
  have hsplit : (CodePoints.ofChars (hex (utf8 cs)) ++
      dotPoint :: cfg.signature hmac (utf8 cs)).splitOn dotPoint =
        [CodePoints.ofChars (hex (utf8 cs)), cfg.signature hmac (utf8 cs)] := by
    rw [List.splitOn_append_cons_self_of_not_mem (dot_not_mem_hex _),
      MediaConfig.signature, List.splitOn_eq_singleton (dot_not_mem_hex _)]
  unfold MediaConfig.decodeToken
  rw [hsplit]
  dsimp only
  rw [CodePoints.fromHex_hex]
  dsimp only
  rw [utf8Decode_utf8]
  dsimp only
  rw [MediaConfig.signature, CodePoints.compareDigest_ok (CodePoints.hex_isAscii _) (CodePoints.hex_isAscii _),
    decide_eq_true rfl]
  dsimp only
  rw [CodePoints.ofChars_chars? hcs]

/-- The signature of a token that is decoded is that of its payload. -/
theorem decodeToken_eq_some {token : CodePoints} {fields : CodePoints × CodePoints × ℤ}
    (h : cfg.decodeToken hmac token = some fields) : ∃ payloadHex bytes cs,
      token.splitOn dotPoint = [payloadHex, cfg.signature hmac bytes] ∧
        CodePoints.fromHex payloadHex = some bytes ∧ utf8 cs = bytes ∧
        MediaConfig.fields? (CodePoints.ofChars cs) = some fields := by
  unfold MediaConfig.decodeToken at h
  split at h
  · rename_i payloadHex sig hsplit
    split at h
    · cases h
    rename_i bytes hbytes
    split at h
    · cases h
    rename_i cs hcs
    split at h
    · rename_i hsame
      have hutf8 := utf8_utf8Decode hcs
      have hsig : sig = cfg.signature hmac bytes := by
        unfold CodePoints.compareDigest at hsame
        split at hsame
        · cases hsame
        · rw [hutf8] at hsame
          exact of_decide_eq_true (Except.ok.inj hsame)
      exact ⟨payloadHex, bytes, cs, hsig ▸ hsplit, hbytes, hutf8, h⟩
    · cases h
  · cases h

end Tokens

/-! ## Files -/

section Files
variable {hmac : HmacSha256} {cfg : MediaConfig} {files : MediaFiles}

theorem get?_cleanup_of_young {name : CodePoints} {file : MediaFile} {pass : CleanupPass}
    (h : files.get? name = some (name, file)) (hyoung : pass.now - cfg.ttlSec - 60 ≤ file.mtime) :
    (cfg.cleanup files pass).get? name = some (name, file) := by
  rw [MediaConfig.cleanup, Table.get?_filterMap, h, Option.bind_some, MediaConfig.keptFile?, if_neg]
  rintro ⟨hold, _⟩
  exact absurd hold (not_lt.mpr hyoung)

theorem get?_cleanup_of_old {name : CodePoints} {file : MediaFile} {pass : CleanupPass}
    (h : files.get? name = some (name, file)) (hold : file.mtime < pass.now - cfg.ttlSec - 60)
    (hreached : pass.reached name = true) : (cfg.cleanup files pass).get? name = none := by
  rw [MediaConfig.cleanup, Table.get?_filterMap, h, Option.bind_some, MediaConfig.keptFile?,
    if_pos ⟨hold, hreached⟩]

/-- Storing another file leaves the files as its cleanup does. -/
theorem get?_storeImage_other {name : CodePoints} {call : StoreCall} (hne : call.filename ≠ name) :
    (cfg.storeImage hmac files call).1.get? name = (cfg.cleanedFor files call).get? name := by
  unfold MediaConfig.storeImage
  dsimp only
  split
  · rfl
  split
  · rfl
  split
  · rfl
  · rw [Table.get?_put, if_neg hne]
  · rw [Table.get?_put, if_neg hne]

/-- A call that returns a token has written its image. -/
theorem storeImage_ok {call : StoreCall} {token : CodePoints}
    (h : (cfg.storeImage hmac files call).2 = .ok token) :
    cfg.generateToken hmac call.filename call.channelId (cfg.expiryOf call) = .ok token ∧
      (cfg.storeImage hmac files call).1.get? call.filename =
        some (call.filename, ⟨call.image, call.written⟩) := by
  unfold MediaConfig.storeImage at h ⊢
  dsimp only at h ⊢
  split
  · rename_i hsize
    rw [if_pos hsize] at h
    cases h
  rename_i hsize
  rw [if_neg hsize] at h
  split
  · rename_i hslash
    rw [if_pos hslash] at h
    cases h
  rename_i hslash
  rw [if_neg hslash] at h
  split
  · rename_i hwrite
    rw [hwrite] at h
    cases h
  · rename_i hwrite
    rw [hwrite] at h
    cases h
  · rename_i hwrite
    rw [hwrite] at h
    refine ⟨h, ?_⟩
    rw [Table.get?_put, if_pos rfl]

theorem getImagePath_of_decode {token filename channelId : CodePoints} {expiry : ℤ} {now : ℚ}
    (h : cfg.decodeToken hmac token = some (filename, channelId, expiry)) :
    cfg.getImagePath hmac files token now =
      if expiry < truncate now then none
      else if (files.get? filename).isNone then none
      else if cfg.inMediaDir filename then some (cfg.mediaDir ++ [filename])
      else none := by
  rw [MediaConfig.getImagePath, h]

end Files

/-! ## Runs -/

section Runs
variable {hmac : HmacSha256} {cfg : MediaConfig}

variable (hmac cfg) in
theorem filesAfter_concat (actions : List MediaAction) (a : MediaAction) :
    cfg.filesAfter hmac (actions ++ [a]) = cfg.act hmac (cfg.filesAfter hmac actions) a := by
  simp [MediaConfig.filesAfter]

theorem inOrder_front {front back : List MediaAction} {now : ℚ}
    (h : MediaConfig.InOrder (front ++ back) now) : MediaConfig.InOrder front now := by
  unfold MediaConfig.InOrder at h ⊢
  refine h.sublist ?_
  rw [List.flatMap_append]
  exact ((List.sublist_append_left _ _).cons_cons 0).append_right _

theorem inOrder_le {actions : List MediaAction} {now : ℚ} (h : MediaConfig.InOrder actions now) :
    0 ≤ now ∧ ∀ t ∈ actions.flatMap MediaAction.readings, 0 ≤ t ∧ t ≤ now := by
  unfold MediaConfig.InOrder at h
  rw [List.pairwise_append, List.pairwise_cons] at h
  obtain ⟨⟨hzero, _⟩, _, hnow⟩ := h
  refine ⟨hnow 0 List.mem_cons_self now List.mem_cons_self, ?_⟩
  intro t ht
  exact ⟨hzero t ht, hnow t (List.mem_cons_of_mem 0 ht) now List.mem_cons_self⟩

/-- A file that no cleanup of the run finds too old is there as long as its name is not drawn again. -/
theorem file_kept {front : List MediaAction} {name : CodePoints} {file : MediaFile}
    (hstart : (cfg.filesAfter hmac front).get? name = some (name, file)) (back : List MediaAction)
    {now : ℚ} (horder : MediaConfig.InOrder (front ++ back) now)
    (hnames : MediaConfig.NotRedrawn name back) (hyoung : now - cfg.ttlSec - 60 ≤ file.mtime) :
    (cfg.filesAfter hmac (front ++ back)).get? name = some (name, file) := by
  induction back using List.reverseRecOn with
  | nil => rwa [List.append_nil]
  | append_singleton back a ih =>
    rw [← List.append_assoc] at horder ⊢
    have hprior := ih (inOrder_front horder) fun call hcall =>
      hnames call (List.mem_append_left _ hcall)
    have hpass : ∀ pass : CleanupPass, pass.now ∈ a.readings →
        (cfg.cleanup (cfg.filesAfter hmac (front ++ back)) pass).get? name = some (name, file) := by
      intro pass hmem
      apply get?_cleanup_of_young hprior
      have hle := ((inOrder_le horder).2 pass.now (by
        rw [List.flatMap_append]
        exact List.mem_append_right _ (by simpa using hmem))).2
      linarith
    rw [filesAfter_concat]
    cases a with
    | cleanup pass => exact hpass pass (by simp [MediaAction.readings])
    | store call =>
      change (cfg.storeImage hmac _ call).1.get? name = _
      rw [get?_storeImage_other (hnames call (by simp)), MediaConfig.cleanedFor]
      split
      · rename_i pass hcleanup
        exact hpass pass (by simp [MediaAction.readings, StoreCall.readings, hcleanup])
      · exact hprior

theorem colon_not_mem_filename {call : StoreCall} (h : colonPoint ∉ call.ext) :
    colonPoint ∉ call.filename := by
  rw [StoreCall.filename, List.mem_append, not_or]
  exact ⟨CodePoints.hex_not_mem (by decide), h⟩

section Stored
variable {before : List MediaAction} {call : StoreCall} {token : CodePoints}

theorem truncate_le_of_lt {t : ℚ} {n : ℤ} (hzero : 0 ≤ t) (h : t < n + 1) : truncate t ≤ n := by
  rw [WeChat.truncate_of_nonneg hzero]
  have hfloor : ⌊t⌋ < n + 1 := Int.floor_lt.mpr (by push_cast; exact h)
  omega

theorem lt_of_truncate_le {t : ℚ} {n : ℤ} (hzero : 0 ≤ t) (h : truncate t ≤ n) : t < n + 1 := by
  rw [WeChat.truncate_of_nonneg hzero] at h
  have hle : (⌊t⌋ : ℚ) ≤ n := by exact_mod_cast h
  linarith [Int.lt_floor_add_one t]

/-- The clock of a call lies before the expiry it gives out. -/
theorem now_lt_expiry (cfg : MediaConfig) (hzero : 0 ≤ call.now) : call.now < cfg.expiryOf call + 1 := by
  apply lt_of_truncate_le hzero
  apply WeChat.truncate_mono hzero
  have httl : (0 : ℚ) ≤ cfg.ttlSec := by exact_mod_cast Nat.zero_le _
  linarith

/-- A cleanup after the call may take the file although the token is still good. -/
theorem exists_cleanup (horder : MediaConfig.InOrder (before ++ [.store call]) call.now)
    (hlate : call.written + cfg.ttlSec + 59 < cfg.expiryOf call) :
    ∃ now, call.now ≤ now ∧ call.written + cfg.ttlSec + 60 < now ∧
      truncate now ≤ cfg.expiryOf call := by
  have hzero := (inOrder_le horder).1
  have hbefore := now_lt_expiry cfg hzero
  have hroom : call.written + cfg.ttlSec + 60 < cfg.expiryOf call + 1 := by linarith
  obtain ⟨now, hlow, hhigh⟩ := exists_between (max_lt hbefore hroom)
  rw [max_lt_iff] at hlow
  exact ⟨now, hlow.1.le, hlow.2, truncate_le_of_lt (hzero.trans hlow.1.le) hhigh⟩

theorem inOrder_concat (horder : MediaConfig.InOrder (before ++ [.store call]) call.now)
    {pass : CleanupPass} (hlater : call.now ≤ pass.now) :
    MediaConfig.InOrder (before ++ [.store call] ++ [.cleanup pass]) pass.now := by
  obtain ⟨hzero, hall⟩ := inOrder_le horder
  unfold MediaConfig.InOrder at horder ⊢
  rw [List.flatMap_append, ← List.cons_append, List.append_assoc, List.pairwise_append]
  refine ⟨(List.pairwise_append.mp horder).1, by simp [MediaAction.readings], ?_⟩
  intro t ht u hu
  have hpass : u = pass.now := by simpa [MediaAction.readings] using hu
  rw [hpass]
  rcases List.mem_cons.mp ht with rfl | ht
  · exact hzero.trans hlater
  · exact (hall t ht).2.trans hlater

theorem opensStored_iff (hext : colonPoint ∉ call.ext)
    (hret : (cfg.storeImage hmac (cfg.filesAfter hmac before) call).2 = .ok token)
    (horder : MediaConfig.InOrder (before ++ [.store call]) call.now) :
    cfg.OpensStored hmac before call token ↔
      colonPoint ∉ call.channelId ∧ cfg.inMediaDir call.filename = true ∧
        cfg.expiryOf call ≤ call.written + cfg.ttlSec + 59 := by
  obtain ⟨hgenerate, hstored⟩ := storeImage_ok hret
  obtain ⟨payload, hpayload, hdecode⟩ := decode_generate hgenerate
  rw [fields?_payload (colon_not_mem_filename hext) hpayload] at hdecode
  have hfile : (cfg.filesAfter hmac (before ++ [.store call])).get? call.filename =
      some (call.filename, ⟨call.image, call.written⟩) := by
    rw [filesAfter_concat]
    exact hstored
  constructor
  · intro hopens
    have hnow : truncate call.now ≤ cfg.expiryOf call :=
      truncate_le_of_lt (inOrder_le horder).1 (now_lt_expiry cfg (inOrder_le horder).1)
    have hfirst := (hopens [] call.now (by rwa [List.append_nil]) (fun _ h => by cases h)).1 hnow
    rw [List.append_nil] at hfirst
    refine ⟨?_, ?_, ?_⟩
    · intro hcolon
      rw [if_pos hcolon] at hdecode
      rw [MediaConfig.getImagePath, hdecode] at hfirst
      cases hfirst.1
    · by_contra hdir
      by_cases hcolon : colonPoint ∈ call.channelId
      · rw [if_pos hcolon] at hdecode
        rw [MediaConfig.getImagePath, hdecode] at hfirst
        cases hfirst.1
      · rw [if_neg hcolon] at hdecode
        rw [getImagePath_of_decode hdecode, if_neg (not_lt.mpr hnow), hfile, if_neg (by simp),
          if_neg hdir] at hfirst
        cases hfirst.1
    · by_contra hlate
      obtain ⟨now, hlater, hold, hin⟩ := exists_cleanup horder (not_le.mp hlate)
      have hgone := ((hopens [.cleanup ⟨now, fun _ => true⟩] now (inOrder_concat horder hlater)
        (fun _ h => by simp at h)).1 hin).2
      rw [filesAfter_concat] at hgone
      change ((cfg.cleanup _ ⟨now, fun _ => true⟩).get? call.filename).map _ = _ at hgone
      rw [get?_cleanup_of_old hfile (by dsimp only; linarith) rfl] at hgone
      cases hgone
  · rintro ⟨hcolon, hdir, hlong⟩ between now horder' hnames
    rw [if_neg hcolon] at hdecode
    rw [getImagePath_of_decode hdecode]
    constructor
    · intro hin
      have hlt := lt_of_truncate_le (inOrder_le horder').1 hin
      have hkept := file_kept hfile between horder' hnames (by dsimp only; linarith)
      rw [if_neg (not_lt.mpr hin), hkept, if_neg (by simp), if_pos hdir]
      exact ⟨rfl, rfl⟩
    · intro hout
      rw [if_pos hout]

end Stored

/-- The fields of an accepted token are those of an earlier call. -/
theorem accepted_issued {actions : List MediaAction} {token : CodePoints} {files : MediaFiles}
    {now : ℚ} {path : List CodePoints}
    (hclean : ∀ call, MediaAction.store call ∈ actions → colonPoint ∉ call.ext)
    (hunforged : cfg.Unforged hmac actions token)
    (h : cfg.getImagePath hmac files token now = some path) :
    ∃ fields, cfg.Issued hmac actions fields ∧ cfg.decodeToken hmac token = some fields := by
  cases hdecode : cfg.decodeToken hmac token with
  | none =>
    rw [MediaConfig.getImagePath, hdecode] at h
    cases h
  | some found =>
    obtain ⟨payloadHex, bytes, cs, hsplit, hhex, hutf8, hfound⟩ := decodeToken_eq_some hdecode
    obtain ⟨fields, payload, hissued, hpayload, hencode⟩ := hunforged payloadHex bytes hsplit hhex
    refine ⟨fields, hissued, ?_⟩
    obtain ⟨cs', hcs', hbytes⟩ := CodePoints.encode_eq_ok hencode
    obtain rfl : cs' = cs := utf8_injective (hbytes.trans hutf8.symm)
    have hfile : colonPoint ∉ fields.1 := by
      obtain ⟨before, a, hpre, hby⟩ := hissued
      cases a with
      | cleanup pass => cases hby
      | store call =>
        simp only [MediaConfig.issuedBy] at hby
        split at hby
        · cases hby
          exact colon_not_mem_filename (hclean call (hpre.subset (by simp)))
        · cases hby
    rw [CodePoints.ofChars_chars? hcs', fields?_payload hfile hpayload] at hfound
    split at hfound
    · cases hfound
    · exact hfound.symm

/-- A token opens what was stored exactly when its channel has no colon, the media directory is its own
resolved path, and the expiry is not a minute or more past the lifetime of the file; and what is
accepted was issued. -/
theorem mediaTokens_iff (hmac : HmacSha256) (cfg : MediaConfig) (before : List MediaAction)
    (call : StoreCall) (token : CodePoints) (hext : colonPoint ∉ call.ext)
    (hret : (cfg.storeImage hmac (cfg.filesAfter hmac before) call).2 = .ok token)
    (horder : MediaConfig.InOrder (before ++ [.store call]) call.now) :
    (cfg.OpensStored hmac before call token ↔
      colonPoint ∉ call.channelId ∧ cfg.inMediaDir call.filename = true ∧
        cfg.expiryOf call ≤ call.written + cfg.ttlSec + 59) ∧
    ∀ actions token' now path,
      (∀ call', MediaAction.store call' ∈ actions → colonPoint ∉ call'.ext) →
      cfg.Unforged hmac actions token' →
      cfg.getImagePath hmac (cfg.filesAfter hmac actions) token' now = some path →
      ∃ fields, cfg.Issued hmac actions fields ∧ cfg.decodeToken hmac token' = some fields :=
  ⟨opensStored_iff hext hret horder, fun _ _ _ _ hclean hunforged h =>
    accepted_issued hclean hunforged h⟩

end Runs

section OneImage

/-- HMAC-SHA256 under the key `s3cret` of the payloads below. -/
def s3cretHmac : HmacSha256 := fun key message =>
  if key = "s3cret".toUTF8.toList ∧ message = "0101010101010101.png:U1:1300".toUTF8.toList then
    [48, 163, 99, 100, 157, 32, 176, 1, 40, 145, 66, 101, 97, 108, 31, 10, 170, 53, 20, 247,
      134, 142, 87, 42, 78, 33, 89, 128, 228, 212, 17, 42]
  else if key = "s3cret".toUTF8.toList ∧ message = "0101010101010101.png:U:1:1300".toUTF8.toList then
    [253, 64, 18, 232, 248, 183, 19, 148, 74, 144, 142, 108, 66, 148, 12, 66, 208, 118, 53, 154,
      6, 189, 218, 11, 194, 235, 214, 142, 240, 31, 235, 194]
  else []

def mediaConfig : MediaConfig where
  secret := "s3cret".toUTF8.toList
  ttlSec := 300
  maxMb := 8
  mediaDir := [CodePoints.ofString "media"]
  resolvedDir := [CodePoints.ofString "media"]

def pngFor (channelId : String) : StoreCall where
  image := [137, 80, 78, 71]
  ext := CodePoints.ofString ".png"
  channelId := CodePoints.ofString channelId
  random := List.replicate 8 1
  cleanup := none
  write := .written
  written := 1000
  now := 1000

def userToken : CodePoints := CodePoints.ofString
  "303130313031303130313031303130312e706e673a55313a31333030.30a363649d20b00128914265616c1f0aaa3514f7868e572a4e215980e4d4112a"

def colonToken : CodePoints := CodePoints.ofString
  "303130313031303130313031303130312e706e673a553a313a31333030.fd4012e8f8b713944a908e6c42940c42d076359a06bdda0bc2ebd68ef01febc2"

theorem userToken_opens : mediaConfig.OpensStored s3cretHmac [] (pngFor "U1") userToken :=
  (mediaTokens_iff s3cretHmac mediaConfig [] (pngFor "U1") userToken (by decide)
    (by decide +kernel) (by decide +kernel)).1.mpr ⟨by decide, by decide, by decide +kernel⟩

/-- The token for a channel with a colon is never accepted. -/
theorem colonToken_rejected : ¬ ∀ (hmac : HmacSha256) (cfg : MediaConfig)
    (before : List MediaAction) (call : StoreCall) (token : CodePoints), colonPoint ∉ call.ext →
      (cfg.storeImage hmac (cfg.filesAfter hmac before) call).2 = .ok token →
      MediaConfig.InOrder (before ++ [.store call]) call.now →
      cfg.OpensStored hmac before call token := by
  intro h
  have hopens := h s3cretHmac mediaConfig [] (pngFor "U:1") colonToken (by decide)
    (by decide +kernel) (by decide +kernel) [] 1000 (by decide +kernel) (fun _ hmem => by cases hmem)
  have hnone : mediaConfig.decodeToken s3cretHmac colonToken = none := by decide +kernel
  have hfirst := (hopens.1 (by decide +kernel)).1
  rw [MediaConfig.getImagePath, hnone] at hfirst
  cases hfirst

end OneImage

end OpenClaw.Connector
