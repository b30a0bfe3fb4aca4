import ThreeAddress.Files.Tree

/-!
# The files of a system

What stands outside of an empty working directory: directories, links, devices, programs and
settings, as on any small system.
-/

namespace ThreeAddress.Files.Tree

/-- The directories outside the working directory. -/
def systemPlaces : List Place :=
  [["boot"], ["dev"], ["dev", "fd"], ["dev", "pts"], ["dev", "shm"], ["etc"], ["home"], ["media"],
    ["mnt"], ["opt"], ["proc"], ["root"], ["run"], ["srv"], ["sys"], ["tmp"], ["usr"],
    ["usr", "bin"], ["usr", "games"], ["usr", "include"], ["usr", "lib"], ["usr", "lib64"],
    ["usr", "local"], ["usr", "local", "bin"], ["usr", "sbin"], ["usr", "share"], ["usr", "src"],
    ["var"], ["var", "cache"], ["var", "lib"], ["var", "log"], ["var", "tmp"]]

/-- The links outside the working directory. -/
def systemLinks : List (Place × FilePath) :=
  [(["bin"], ⟨"usr/bin"⟩), (["lib"], ⟨"usr/lib"⟩), (["lib64"], ⟨"usr/lib64"⟩),
    (["sbin"], ⟨"usr/sbin"⟩), (["usr", "bin", "sh"], ⟨"dash"⟩)]

def devices : List (Place × Device) :=
  [(["dev", "null"], .null), (["dev", "full"], .full), (["dev", "stdin"], .null),
    (["dev", "tty"], .terminal), (["dev", "stdout"], .stream .empty),
    (["dev", "stderr"], .stream .empty)]

/-- The files that every system has. -/
def systemFiles : List Place :=
  ["bash.bashrc", "debian_version", "environment", "fstab", "group", "host.conf", "hostname",
    "hosts", "issue", "ld.so.conf", "mtab", "networks", "nsswitch.conf", "os-release", "profile",
    "resolv.conf", "shadow", "shells"].map fun name => ["etc", name]

/-- The accounts that every system has. -/
def accounts : String :=
  "root:x:0:0:root:/root:/bin/bash\n" ++
  "daemon:x:1:1:daemon:/usr/sbin:/usr/sbin/nologin\n" ++
  "bin:x:2:2:bin:/bin:/usr/sbin/nologin\n" ++
  "sys:x:3:3:sys:/dev:/usr/sbin/nologin\n" ++
  "sync:x:4:65534:sync:/bin:/bin/sync\n" ++
  "games:x:5:60:games:/usr/games:/usr/sbin/nologin\n" ++
  "man:x:6:12:man:/var/cache/man:/usr/sbin/nologin\n" ++
  "lp:x:7:7:lp:/var/spool/lpd:/usr/sbin/nologin\n" ++
  "mail:x:8:8:mail:/var/mail:/usr/sbin/nologin\n" ++
  "news:x:9:9:news:/var/spool/news:/usr/sbin/nologin\n" ++
  "uucp:x:10:10:uucp:/var/spool/uucp:/usr/sbin/nologin\n" ++
  "proxy:x:13:13:proxy:/bin:/usr/sbin/nologin\n" ++
  "www-data:x:33:33:www-data:/var/www:/usr/sbin/nologin\n" ++
  "backup:x:34:34:backup:/var/backups:/usr/sbin/nologin\n" ++
  "list:x:38:38:Mailing List Manager:/var/list:/usr/sbin/nologin\n" ++
  "irc:x:39:39:ircd:/run/ircd:/usr/sbin/nologin\n" ++
  "_apt:x:42:65534::/nonexistent:/usr/sbin/nologin\n" ++
  "nobody:x:65534:65534:nobody:/nonexistent:/usr/sbin/nologin\n"

/-- A system whose working directory is empty. What most of its files hold is not told. -/
def empty : Tree where
  nodes :=
    (workingPlace :: systemPlaces).map (·, .directory) ++
      (programs ++ systemFiles).map (·, .file .empty) ++
      [(["etc", "passwd"], .file accounts.toUTF8)] ++
      systemLinks.map (fun (place, target) => (place, .link target)) ++
      devices.map fun (place, d) => (place, .device d)
  shared := []
  changes := []

end ThreeAddress.Files.Tree
