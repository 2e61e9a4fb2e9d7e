import CHeader.Bundled.Headers
import CHeader.Source.Process

/- Worlds with the bundled headers and the system directories in place. -/

namespace CHeader

namespace Source

namespace World

def textBytes (s : String) : List UInt8 := s.toList.flatMap Text.Encoding.utf8Bytes

/- A world with files in the working directory, given by their paths seen from there. -/
def ofFiles (world : World) (files : List (String × List UInt8)) : World :=
  let placed (dir : String) (path : String) := Path.reduce [] (Path.parts (Path.join dir path))
  { world with
    tree :=
      { files := files.map (fun (path, bytes) =>
          (placed world.workingDir path, bytes)) ++
          Bundled.headers.map (fun (name, text) =>
              (placed world.bundledDir name, textBytes text)),
        directories := (world.workingDir :: world.bundledDir ::
            systemDirectories).map (placed "/") } }

end World

end Source

end CHeader
