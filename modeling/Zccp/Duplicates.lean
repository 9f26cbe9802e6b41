import Zccp.Go.Clone
import Zccp.Java.Dup
import Zccp.Msg.Dup

/-!
# `Zccp/Duplicates.lean` — is a duplicate as good as the original?

Three programs duplicate messages, each field by field with a list of its own for each type. C and the
Go packages copy what they send. The Java class forgets the content of the three types that have one,
and does not expect headers that have not been set, where C asks first.
-/

set_option autoImplicit false

namespace Zccp

open Lib

/-- **Which messages are duplicated**, by each of the three; `zhash_dup` and the constructor of a
`HashMap` are any functions that keep the entries. -/
theorem duplicates_iff {zhashDup : Zhash → Zhash} (hdup : ∀ h, (zhashDup h).items.Perm h.items)
    {hashMap : Java.Headers → Java.Headers} (hmap : ∀ h, (hashMap h).entries.Perm h.entries)
    (m : ZccpMsg) (package : Go.Package) (t : Go.Message) (msg : Java.ZccpMsg) :
    ((cCodec zhashDup).Duplicates m ∧
      ∀ router sent, m.SendsAgain zhashDup router sent ↔ m.Sends router sent) ∧
    (Go.goCodec package).Duplicates t ∧
    ((Java.javaCodec hashMap).Duplicates msg ↔
      (msg.id.hasHeaders = true → msg.headers.isSome) ∧
        (msg.contentParts = [] ∨ ¬ (Ascii msg.chars ∧ msg.measuredFrame.length < 2 ^ 31))) :=
  ⟨⟨duplicates_c hdup m, sendsAgain_iff hdup m⟩, Go.duplicates_go package t,
    Java.duplicates_java_iff hmap msg⟩

/-- A PUBLISH with an empty dictionary and a content of one byte. -/
def publishByte : Java.ZccpMsg :=
  { Java.ZccpMsg.new .publish with headers := some ∅, content := some [[1]] }

theorem duplicates_publish :
    ((cCodec id).Duplicates (.publish (.ofBytes [65]) (some .empty) [[1]]) ∧
      ∀ router sent, (ZccpMsg.publish (.ofBytes [65]) (some .empty) [[1]]).SendsAgain id router sent ↔
        (ZccpMsg.publish (.ofBytes [65]) (some .empty) [[1]]).Sends router sent) ∧
    (Go.goCodec Go.zccpMsg).Duplicates ⟨none, .publish [65] ∅ (some [1])⟩ ∧
    ((Java.javaCodec id).Duplicates publishByte ↔
      (publishByte.id.hasHeaders = true → publishByte.headers.isSome) ∧
        (publishByte.contentParts = [] ∨
          ¬ (Ascii publishByte.chars ∧ publishByte.measuredFrame.length < 2 ^ 31))) :=
  duplicates_iff (fun _ => List.Perm.refl _) (fun _ => List.Perm.refl _) _ _ _ _

/-- A HELLO whose headers have not been set is sent and not duplicated; a content is sent and is gone
from the duplicate. -/
theorem not_duplicates_java :
    let hello := Java.ZccpMsg.new .hello
    hello.send = some [[0xAA, 0xAA, 1, 0, 0, 0, 0, 0]] ∧ hello.dup id = none ∧
      ¬ (Java.javaCodec id).Duplicates hello ∧
    publishByte.send = some [[0xAA, 0xAA, 5, 0, 0, 0, 0, 0], [1]] ∧
      (publishByte.dup id).bind Java.ZccpMsg.send = some [[0xAA, 0xAA, 5, 0, 0, 0, 0, 0]] ∧
      ¬ (Java.javaCodec id).Duplicates publishByte := by
  intro hello
  have hperm : ∀ h : Java.Headers, (id h).entries.Perm h.entries := fun h => List.Perm.refl h.entries
  refine ⟨by decide +kernel, rfl, ?_, by decide +kernel, by decide +kernel, ?_⟩
  · intro h
    have hheaders := ((Java.duplicates_java_iff hperm hello).mp h).1 rfl
    cases hheaders
  · intro h
    rcases ((Java.duplicates_java_iff hperm publishByte).mp h).2 with hparts | hnot
    · cases hparts
    · have hascii : Ascii publishByte.chars := List.forall_mem_nil _
      have hlength : publishByte.measuredFrame.length = 8 := rfl
      refine hnot ⟨hascii, ?_⟩
      rw [hlength]
      omega

end Zccp
