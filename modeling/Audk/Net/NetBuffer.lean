import Mathlib.Tactic

/-!
# Net buffers

A `NET_BUF` as the data of its blocks.

* `netbufTrim`: `NetbufTrim`, a loop over the blocks from either end;
* `netbufTrim_head`, `netbufTrim_tail`: what is left.
-/

namespace Audk.Net

open List

/-- the blocks of a `NET_BUF`, each from `Head` to `Tail` -/
abbrev Blocks := List (List UInt8)

def Blocks.totalSize (buf : Blocks) : Nat := (buf.map List.length).sum

def netblockTrim (fromHead : Bool) (len : Nat) (block : List UInt8) : List UInt8 :=
  if fromHead then block.drop len else block.take (block.length - len)

/-- the loop of `NetbufTrim`, over the blocks in the order in which they are visited -/
def trimLoop (fromHead : Bool) : Nat → Blocks → Blocks
  | _, [] => []
  | len, block :: blocks =>
    if block.length = 0 then block :: trimLoop fromHead len blocks
    else if block.length < len then
      netblockTrim fromHead block.length block :: trimLoop fromHead (len - block.length) blocks
    else netblockTrim fromHead len block :: blocks

def netbufTrim (buf : Blocks) (len : Nat) (fromHead : Bool) : Blocks :=
  if len = 0 ∨ buf.totalSize = 0 then buf
  else
    let len := if buf.totalSize < len then buf.totalSize else len
    if fromHead then trimLoop true len buf else (trimLoop false len buf.reverse).reverse

lemma Blocks.totalSize_eq (buf : Blocks) : buf.totalSize = buf.flatten.length := length_flatten.symm

lemma flatten_filter (bs : Blocks) : (bs.filter fun b => !b.isEmpty).flatten = bs.flatten := by
  induction bs with
  | nil => rfl
  | cons b bs ih =>
    cases b with
    | nil => exact ih
    | cons c b =>
      rw [filter_cons_of_pos rfl, flatten_cons, flatten_cons, ih]

lemma netblockTrim_head (len : Nat) (block : List UInt8) : netblockTrim true len block = block.drop len := rfl

lemma netblockTrim_tail (len : Nat) (block : List UInt8) :
    netblockTrim false len block = block.take (block.length - len) := rfl

lemma trimLoop_head (len : Nat) (buf : Blocks) : (trimLoop true len buf).flatten = buf.flatten.drop len := by
  induction buf generalizing len with
  | nil => rw [trimLoop, flatten_nil, drop_nil]
  | cons block buf ih =>
    unfold trimLoop
    split_ifs with hzero hlt
    · rw [flatten_cons, flatten_cons, ih, length_eq_zero_iff.mp hzero, nil_append,
        nil_append]
    · rw [flatten_cons, flatten_cons, ih, netblockTrim_head, drop_length, nil_append,
        drop_append, drop_eq_nil_of_le hlt.le, nil_append]
    · rw [flatten_cons, flatten_cons, netblockTrim_head,
        List.drop_append_of_le_length (Nat.le_of_not_lt hlt)]

lemma trimLoop_tail (len : Nat) (buf : Blocks) (hlen : len ≤ buf.flatten.length) :
    (trimLoop false len buf.reverse).reverse.flatten = buf.flatten.take (buf.flatten.length - len) := by
  induction buf using List.reverseRecOn generalizing len with
  | nil => simp [trimLoop]
  | append_singleton buf block ih =>
    rw [reverse_append, reverse_singleton, singleton_append]
    rw [flatten_append, flatten_singleton, length_append] at hlen ⊢
    unfold trimLoop
    split_ifs with hzero hlt
    · rw [length_eq_zero_iff.mp hzero] at hlen ⊢
      rw [reverse_cons, flatten_append, ih len hlen]
      simp
    · rw [List.reverse_cons, List.flatten_append, ih (len - block.length) (by omega), netblockTrim_tail, Nat.sub_self,
        take_zero, flatten_singleton, append_nil, take_append_of_le_length (by omega)]
      congr 1
      omega
    · rw [reverse_cons, reverse_reverse, flatten_append, flatten_singleton, netblockTrim_tail,
        take_append, take_of_length_le (l := buf.flatten) (by omega)]
      congr 2
      omega

lemma netbufTrim_head (buf : Blocks) (len : Nat) : (netbufTrim buf len true).flatten = buf.flatten.drop len := by
  unfold netbufTrim
  rw [Blocks.totalSize_eq]
  by_cases hzero : len = 0 ∨ buf.flatten.length = 0
  · rw [if_pos hzero]
    rcases hzero with hzero | hzero
    · rw [hzero, drop_zero]
    · rw [length_eq_zero_iff.mp hzero, drop_nil]
  · rw [if_neg hzero]
    simp only [if_true, trimLoop_head]
    split_ifs with hlt
    · rw [drop_length, drop_eq_nil_of_le hlt.le]
    · rfl

lemma netbufTrim_tail (buf : Blocks) (len : Nat) :
    (netbufTrim buf len false).flatten = buf.flatten.take (buf.flatten.length - len) := by
  unfold netbufTrim
  rw [Blocks.totalSize_eq]
  by_cases hzero : len = 0 ∨ buf.flatten.length = 0
  · rw [if_pos hzero]
    rcases hzero with hzero | hzero
    · rw [hzero, Nat.sub_zero, List.take_length]
    · rw [length_eq_zero_iff.mp hzero, take_nil]
  rw [if_neg hzero]
  simp only [Bool.false_eq_true, if_false]
  split_ifs with hlt
  · rw [trimLoop_tail _ _ le_rfl]
    congr 1
    omega
  · rw [trimLoop_tail _ _ (Nat.le_of_not_lt hlt)]

end Audk.Net
