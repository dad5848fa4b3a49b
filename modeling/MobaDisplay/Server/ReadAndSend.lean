import MobaDisplay.Lib.CxxStream
import MobaDisplay.Server.Response

/-!
# `ResourceLoader::readAndSend`

One round of the loop that streams a file: read into the shared buffer, copy what
was read into the response, and send it if the buffer was full. The callback of the
send is the next round.
-/

namespace MobaDisplay

open Cxx

/-- The size of the buffer. -/
def bufferSize : Nat := 131072

/-- The loader's own data; the length of the buffer never changes. -/
structure ResourceLoader where
  rootPath : Bytes
  buffer : Bytes
  buffer_length : buffer.length = bufferSize

/-- `ResourceLoader(rootPath)` -/
def ResourceLoader.make (rootPath : Bytes) : ResourceLoader :=
  ⟨rootPath, List.replicate bufferSize 0, List.length_replicate⟩

namespace ResourceLoader

/-- `ifs->read(&buffer[0], buffer.size())`: a short chunk leaves the rest of the buffer alone. -/
def fill (loader : ResourceLoader) (ifs : Ifstream) : ResourceLoader where
  rootPath := loader.rootPath
  buffer := ifs.chunk bufferSize ++ loader.buffer.drop (ifs.chunk bufferSize).length
  buffer_length := by
    have hlen := ifs.chunk_length_le bufferSize
    rw [List.length_append, List.length_drop, loader.buffer_length]
    omega

/-- One round, up to where it returns or its send is in the queue. -/
def readAndSend (loader : ResourceLoader) (response : Response) (ifs : Ifstream) :
    ResourceLoader × Response × Ifstream :=
  let loader' := loader.fill ifs
  let length := (ifs.chunk bufferSize).length
  let ifs' := ifs.skip bufferSize
  if length ≤ 0 then
    (loader', response, ifs')
  else
    let response' := response.write (loader'.buffer.take length)
    if length ≠ bufferSize then (loader', response', ifs') else (loader', response'.send, ifs')

/-- What `operator()` does once the file is open, with the stream at its end. -/
def streamFile (loader : ResourceLoader) (response : Response) (ifs : Ifstream) :
    ResourceLoader × Response × Ifstream :=
  let length := ifs.tellg
  let ifs := ifs.rewind
  let response := response.writeAnswer .successOk [] [(utf8 "Content-Length", decimal length)]
  loader.readAndSend response ifs

/-- The buffer begins with what was read, whatever it held before. -/
theorem take_fill (loader : ResourceLoader) (ifs : Ifstream) :
    (loader.fill ifs).buffer.take (ifs.chunk bufferSize).length = ifs.chunk bufferSize :=
  List.take_left

/-- The response behind one round. -/
def sent (response : Response) (chunk : Bytes) : Response :=
  if chunk.length = bufferSize then (response.write chunk).send else response.write chunk

/-- **One round, without the buffer.** -/
theorem readAndSend_eq (loader : ResourceLoader) (response : Response) (ifs : Ifstream) :
    loader.readAndSend response ifs
      = (loader.fill ifs, sent response (ifs.chunk bufferSize), ifs.skip bufferSize) := by
  unfold readAndSend sent
  dsimp only
  rw [take_fill]
  by_cases hempty : (ifs.chunk bufferSize).length ≤ 0
  · have hzero : (ifs.chunk bufferSize).length = 0 := by omega
    have hnil : ifs.chunk bufferSize = [] := List.length_eq_zero_iff.mp hzero
    have hsize : ¬ ([] : Bytes).length = bufferSize := by decide
    rw [if_pos hempty, hnil, if_neg hsize, Response.write_nil]
  · rw [if_neg hempty]
    by_cases hfull : (ifs.chunk bufferSize).length = bufferSize
    · rw [if_neg (not_not_intro hfull), if_pos hfull]
    · rw [if_pos hfull, if_neg hfull]

theorem streamFile_eq (loader : ResourceLoader) (response : Response) (bytes : Bytes) :
    loader.streamFile response (.openAte bytes)
      = (loader.fill ⟨bytes, 0, false⟩,
          sent (response.write (fileHead bytes.length))
            (Ifstream.chunk ⟨bytes, 0, false⟩ bufferSize),
          Ifstream.skip ⟨bytes, 0, false⟩ bufferSize) := by
  rw [streamFile, Ifstream.rewind_openAte, Ifstream.tellg_openAte, Response.writeAnswer,
    answerText_contentLength, readAndSend_eq]

end ResourceLoader

end MobaDisplay
